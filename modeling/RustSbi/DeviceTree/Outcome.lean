import RustSbi.DeviceTree.Safety
import RustSbi.DeviceTree.TreeEdit

/-!
When `prepare_next_stage` fails, and whether the reservation is there when it does not.
Both are read off the tree of the source.
-/

namespace RustSbi.DeviceTree

open Bytes

/-! ## The reservation in the result -/

/-- A reserved-memory node of the root has the node of the reservation. -/
def Node.Reserves (root : Node) (reservation : Reservation) : Prop :=
  ∃ parent ∈ root.children, parent.isReservedMemory = true ∧
    reservation.node parent.cells ∈ parent.children

theorem Node.cells_addChild (node child : Node) : (node.addChild child).cells = node.cells := rfl

theorem Reservation.cells_parent (reservation : Reservation) {cells : CellCounts}
    (hcells : cells.Narrow) : (reservation.parent cells).cells = cells := by
  have haddress : readBE (beBytes 4 cells.addressCells) = cells.addressCells :=
    readBE_beBytes (by have := hcells.1.2; omega)
  have hsize : readBE (beBytes 4 cells.sizeCells) = cells.sizeCells :=
    readBE_beBytes (by have := hcells.2.2; omega)
  have hne : ascii "#size-cells" ≠ ascii "#address-cells" := by decide +kernel
  have hranges : ascii "ranges" ≠ ascii "#address-cells" := by decide +kernel
  have hranges' : ascii "ranges" ≠ ascii "#size-cells" := by decide +kernel
  simp only [Node.cells, Reservation.parent, Node.lookup_cons, Node.lookup_nil, if_neg hne,
    if_neg hranges, if_neg hranges', ↓reduceIte, Option.or_none, Option.or_some, Option.map_some,
    Option.getD_some, Option.getD_none, Option.some_or, haddress, hsize]

/-- The edit puts the reservation under a reserved-memory node. -/
theorem Node.reserves_reserve {root : Node} (hcells : root.cells.Narrow)
    (reservation : Reservation) : (root.reserve reservation).Reserves reservation := by
  rw [Node.reserve]
  split
  · next hany =>
    obtain ⟨node, hmem, hnode⟩ := List.any_eq_true.mp hany
    refine ⟨node.addReservation reservation, List.mem_map_of_mem hmem, ?_⟩
    rw [Node.addReservation, if_pos hnode, Node.cells_addChild]
    exact ⟨hnode, List.mem_append_right _ (List.mem_singleton_self _)⟩
  · refine ⟨_, List.mem_append_right _ (List.mem_singleton_self _), ?_, ?_⟩
    · show EditPlanner.isReservedMemoryName (ascii "reserved-memory") = true
      decide +kernel
    · rw [reservation.cells_parent hcells]
      exact List.mem_singleton_self _

theorem Reservation.not_isReservedMemory (reservation : Reservation) (cells : CellCounts) :
    (reservation.node cells).isReservedMemory = false := by
  obtain ⟨rest, hrest⟩ : ∃ rest, reservation.name = 0x6d :: rest := ⟨_, rfl⟩
  obtain ⟨other, hother⟩ : ∃ other, ascii "reserved-memory" = 0x72 :: other := ⟨_, rfl⟩
  rw [Reservation.node, Node.isReservedMemory_mk, EditPlanner.isReservedMemoryName, hrest, hother,
    List.takeWhile_cons_of_pos (by decide)]
  rfl

/-- A reservation at the place of a hidden reserved-memory node is under no such node. -/
theorem Content.not_reserved_of_hidden {c child : Content} {hidden : List ByteString}
    {path : ByteString} (hchild : ∀ node ∈ child.children, node.isReservedMemory = false)
    (hone : (c.children.filter Node.isReservedMemory).length = 1) {original : Node}
    (hmem : original ∈ c.children) (hreserved : original.isReservedMemory = true)
    (hhidden : EditPlanner.pushName path original.name false ∈ hidden) :
    ∀ node ∈ (c.reserve hidden path child).children, node.isReservedMemory = false := by
  induction c with
  | nil => cases hmem
  | nop rest ih => exact ih hone hmem
  | property raw name value rest ih => exact ih hone hmem
  | node raw name inner rest _ ih =>
    by_cases hname : EditPlanner.isReservedMemoryName name = true
    · have hself : (Node.mk name inner.properties inner.children).isReservedMemory = true := hname
      rw [children, List.filter_cons_of_pos hself, List.length_cons, Nat.add_eq_right,
        List.length_eq_zero_iff, List.filter_eq_nil_iff] at hone
      have horiginal : original = .mk name inner.properties inner.children := by
        rcases List.mem_cons.mp hmem with rfl | hmem
        · rfl
        · exact (hone original hmem hreserved).elim
      rw [horiginal, Node.name_mk] at hhidden
      simp only [reserve, hname, hhidden, ↓reduceIte, children_nops, children_append, children]
      intro node hnode
      rcases List.mem_append.mp hnode with hnode | hnode
      · exact hchild node hnode
      · obtain ⟨other, hother, hsame, -⟩ := exists_of_mem_hide hnode
        rw [Node.isReservedMemory, ← hsame]
        exact Bool.eq_false_iff.mpr (hone other hother)
    · have hself : ¬ (Node.mk name inner.properties inner.children).isReservedMemory = true := hname
      rw [children, List.filter_cons_of_neg hself] at hone
      have hrest : original ∈ rest.children := by
        rcases List.mem_cons.mp hmem with rfl | hmem
        · exact (hself hreserved).elim
        · exact hmem
      have hnext := ih hone hrest
      by_cases hinside : EditPlanner.pushName path name false ∈ hidden
      · simp only [reserve, hname, hinside, ↓reduceIte, Bool.false_eq_true, children_nops]
        exact hnext
      · simp only [reserve, hname, hinside, ↓reduceIte, Bool.false_eq_true, children,
          List.forall_mem_cons, Node.isReservedMemory_mk]
        exact ⟨trivial, hnext⟩

section Prepare

variable {xlen : Xlen} {source output : ByteString} {layout : Layout} {root : Root}

/-- A hidden reserved-memory node takes its reservation with it. -/
theorem Root.not_reserves {hidden : List ByteString} {reservation : Reservation} (names : NewStrings)
    (htwice : root.twice = false) (hhidden : ¬ root.tree.KeepsReserved hidden) :
    ¬ (root.reserve hidden names reservation).tree.Reserves reservation := by
  simp only [Node.KeepsReserved, not_forall, not_not] at hhidden
  obtain ⟨original, hmem, hreserved, hpath⟩ := hhidden
  rw [← pushName_slash] at hpath
  have hlength := root.length_reserved
  have hfew : ¬ 1 < (root.inner.reserved root.innerOffset).length := by
    simpa [Root.twice] using htwice
  have hsome : 0 < (root.tree.children.filter Node.isReservedMemory).length :=
    List.length_pos_of_mem (List.mem_filter.mpr ⟨hmem, hreserved⟩)
  have hone : (root.inner.children.filter Node.isReservedMemory).length = 1 := by
    change (root.tree.children.filter Node.isReservedMemory).length = 1
    omega
  have hchild : ∀ node ∈ (childContent names root.cells reservation).children,
      node.isReservedMemory = false := by
    intro node hnode
    rw [List.mem_singleton.mp hnode]
    exact reservation.not_isReservedMemory root.cells
  have hnone := Content.not_reserved_of_hidden hchild hone hmem hreserved hpath
  cases hrecorded : root.reservedMemory with
  | none =>
    rw [List.head?_eq_none_iff.mp hrecorded, List.length_nil] at hlength
    omega
  | some recorded =>
    rintro ⟨parent, hparent, hname, -⟩
    simp only [Root.reserve, hrecorded, Root.tree, Node.children_mk] at hparent
    rw [hnone parent hparent] at hname
    cases hname

/-- The reservation is in the result exactly when the reserved-memory node is not hidden. -/
theorem reservation_kept_iff (reservation : Reservation) (hidden : List ByteString)
    (hvalid : validate xlen source = .ok ())
    (hprepare : prepareNextStage xlen source (some reservation) hidden = .ok output) :
    ∃ blob result, decode xlen source = .ok blob ∧ decode xlen output = .ok result ∧
      (result.root.Reserves reservation ↔ blob.root.KeepsReserved hidden) := by
  obtain ⟨layout, root, h⟩ := validate_iff_accepted.mp hvalid
  obtain ⟨_, _, _, hlaid⟩ := h.laidOut
  obtain ⟨bootCpu, hword⟩ := hlaid.exists_bootCpu
  have hresult := (h.prepare_some_iff hidden reservation).mp hprepare
  obtain ⟨-, htwice, haccepts, hcells, -, hsize⟩ := hresult.1
  have haccepted := h.reserved hidden haccepts hcells hsize
  refine ⟨⟨layout.reservations, bootCpu, root.tree⟩,
    ⟨layout.reservations, bootCpu, (root.reserve hidden (newStrings layout.strings) reservation).tree⟩,
    h.decode_iff.mpr ⟨rfl, hword, rfl⟩, ?_, ?_⟩
  · rw [hresult.2]
    exact haccepted.decode_iff.mpr ⟨rfl, h.bootCpu_rebuilt _ _ hword, rfl⟩
  · refine ⟨fun hreserves => ?_, fun hkept => ?_⟩
    · by_contra hhidden
      exact Root.not_reserves _ htwice hhidden hreserves
    · rw [Root.tree_reserve _ htwice haccepts hkept]
      refine Node.reserves_reserve ?_ reservation
      rwa [root.cells_tree_hide]

end Prepare

/-- A root with a reserved-memory node of its own cells. -/
def reservedBlob : ByteString :=
  blobOf [beginNodeWord, 0,
      beginNodeWord, 0x72657365, 0x72766564, 0x2d6d656d, 0x6f727900,
      propertyWord, 4, 0, 2, propertyWord, 4, 15, 1, propertyWord, 0, 27,
      endNodeWord, endNodeWord, endWord]
    (ascii "#address-cells" ++ [0] ++ ascii "#size-cells" ++ [0] ++ ascii "ranges" ++ [0])

/-- The node `reserved-memory` kept. -/
theorem reservation_kept_iff_kept :
    ∃ output result, prepareNextStage .rv64 reservedBlob (some ⟨0x80000000, 0x40000, by decide⟩)
        [ascii "/a"] = .ok output ∧ decode .rv64 output = .ok result ∧
      result.root.Reserves ⟨0x80000000, 0x40000, by decide⟩ := by
  have hvalid : validate .rv64 reservedBlob = .ok () := by decide +kernel
  have hok : (prepareNextStage .rv64 reservedBlob (some ⟨0x80000000, 0x40000, by decide⟩)
      [ascii "/a"]).isOk = true := by decide +kernel
  have htree : ((decode .rv64 reservedBlob).toOption.all fun blob =>
      decide (blob.root.KeepsReserved [ascii "/a"])) = true := by decide +kernel
  obtain ⟨output, hprepare⟩ := exists_ok_of_isOk hok
  obtain ⟨blob, result, hblob, hresult, hiff⟩ := reservation_kept_iff _ _ hvalid hprepare
  rw [hblob, Except.toOption, Option.all_some, decide_eq_true_eq] at htree
  exact ⟨output, result, hprepare, hresult, hiff.mpr htree⟩

/-- The node `reserved-memory` hidden: the call returns, and nothing is reserved. -/
theorem reservation_lost :
    ∃ output result, validate .rv64 reservedBlob = .ok () ∧
      prepareNextStage .rv64 reservedBlob (some ⟨0x80000000, 0x40000, by decide⟩)
        [ascii "/reserved-memory"] = .ok output ∧
      decode .rv64 output = .ok result ∧
      ¬ result.root.Reserves ⟨0x80000000, 0x40000, by decide⟩ := by
  have hvalid : validate .rv64 reservedBlob = .ok () := by decide +kernel
  have hok : (prepareNextStage .rv64 reservedBlob (some ⟨0x80000000, 0x40000, by decide⟩)
      [ascii "/reserved-memory"]).isOk = true := by decide +kernel
  have hdecoded : ((prepareNextStage .rv64 reservedBlob (some ⟨0x80000000, 0x40000, by decide⟩)
      [ascii "/reserved-memory"] >>= decode .rv64).isOk) = true := by decide +kernel
  have hnone : ((prepareNextStage .rv64 reservedBlob (some ⟨0x80000000, 0x40000, by decide⟩)
      [ascii "/reserved-memory"] >>= decode .rv64).toOption.all fun result =>
        result.root.children.all fun node => !node.isReservedMemory) = true := by decide +kernel
  obtain ⟨output, hprepare⟩ := exists_ok_of_isOk hok
  rw [hprepare, ok_bind] at hdecoded hnone
  obtain ⟨result, hresult⟩ := exists_ok_of_isOk hdecoded
  rw [hresult, Except.toOption, Option.all_some, List.all_eq_true] at hnone
  refine ⟨output, result, hvalid, hprepare, hresult, ?_⟩
  rintro ⟨parent, hparent, hname, -⟩
  have hfalse := hnone parent hparent
  rw [hname] at hfalse
  cases hfalse

/-! ## Failures -/

mutual

/-- The length of the tokens of a node. -/
def Node.encodedLength : Node → Nat
  | .mk name properties children =>
    4 + roundUp (name.length + 1) 4 +
      (properties.map fun property => 12 + roundUp property.2.length 4).sum +
      encodedLengthAll children + 4

/-- The length of the tokens of nodes. -/
def encodedLengthAll : List Node → Nat
  | [] => 0
  | node :: rest => node.encodedLength + encodedLengthAll rest

end

/-- The names that a reservation adds to the strings block. -/
def newNames : List ByteString :=
  [ascii "#address-cells", ascii "#size-cells", ascii "ranges", ascii "reg", ascii "no-map"]

/-- The node that a reservation adds. -/
def Node.inserted (root : Node) (reservation : Reservation) : Node :=
  if root.children.any isReservedMemory then reservation.node root.cells
  else reservation.parent root.cells

/-- The words of the header that `rebuild` writes for blocks of the sizes. -/
def headerWords (layout : Layout) (structureSize stringsSize : Nat) : List Nat :=
  let structureOffset := headerSize + layout.reservations.length
  let stringsOffset := structureOffset + structureSize
  [roundUp (stringsOffset + stringsSize) 4, structureOffset, stringsOffset, headerSize, stringsSize,
    structureSize]

/-- The reasons for which `prepare_next_stage` refuses a blob that validates. -/
inductive Refused (layout : Layout) (root : Node) (hidden : List ByteString) :
    Option Reservation → Prop
  | path {reservation : Option Reservation} {path : ByteString} (mem : path ∈ hidden)
      (bad : path.head? ≠ some 0x2f ∨ path = ascii "/" ∨ 0 ∈ path) :
      Refused layout root hidden reservation
  | twice {reservation : Option Reservation}
      (two : 1 < (root.children.filter Node.isReservedMemory).length) :
      Refused layout root hidden reservation
  | disabled {reservation : Reservation} {node : Node} (mem : node ∈ root.children)
      (name : node.isReservedMemory = true) (status : node.isEnabled = false) :
      Refused layout root hidden (some reservation)
  | lacksCells {reservation : Reservation} {node : Node} (mem : node ∈ root.children)
      (name : node.isReservedMemory = true)
      (lacks : node.lookup (ascii "#address-cells") = none ∨
        node.lookup (ascii "#size-cells") = none) :
      Refused layout root hidden (some reservation)
  | lacksRanges {reservation : Reservation} {node : Node} (mem : node ∈ root.children)
      (name : node.isReservedMemory = true) (lacks : node.lookup (ascii "ranges") ≠ some []) :
      Refused layout root hidden (some reservation)
  | otherCells {reservation : Reservation} {node : Node} (mem : node ∈ root.children)
      (name : node.isReservedMemory = true) (differ : node.cells ≠ root.cells) :
      Refused layout root hidden (some reservation)
  | taken {reservation : Reservation} {node child : Node} (mem : node ∈ root.children)
      (name : node.isReservedMemory = true) (child_mem : child ∈ node.children)
      (same : child.name = reservation.name) : Refused layout root hidden (some reservation)
  | cellCounts {reservation : Reservation} (wide : ¬ root.cells.Narrow) :
      Refused layout root hidden (some reservation)
  | large {reservation : Reservation} (large : ¬ reservation.Fits root.cells) :
      Refused layout root hidden (some reservation)
  | header {reservation : Reservation} {word : Nat}
      (mem : word ∈ headerWords layout
        (layout.structureBlock.length + (root.inserted reservation).encodedLength)
        (layout.strings.length + (newNames.map fun name => name.length + 1).sum))
      (large : 2 ^ 32 ≤ word) : Refused layout root hidden (some reservation)

theorem badPath_eq_true_iff {path : ByteString} :
    badPath path = true ↔ path.head? ≠ some 0x2f ∨ path = ascii "/" ∨ 0 ∈ path := by
  simp [badPath, or_assoc]

/-- A header word is too large only if the total size is. -/
theorem exists_headerWord_iff {layout : Layout} {structureSize stringsSize : Nat} :
    (∃ word ∈ headerWords layout structureSize stringsSize, 2 ^ 32 ≤ word) ↔
      2 ^ 32 ≤ roundUp (headerSize + layout.reservations.length + structureSize + stringsSize) 4 := by
  have hround := @le_roundUp
    (headerSize + layout.reservations.length + structureSize + stringsSize) 4 (by decide)
  simp only [headerWords, List.mem_cons, List.not_mem_nil, or_false]
  constructor
  · rintro ⟨word, rfl | rfl | rfl | rfl | rfl | rfl, hlarge⟩ <;> omega
  · intro hlarge
    exact ⟨_, .inl rfl, hlarge⟩

section Lengths

variable (names : NewStrings) (cells : CellCounts) (reservation : Reservation)

theorem length_beginRaw (name : ByteString) :
    (beginRaw name).length = 4 + roundUp (name.length + 1) 4 := by
  rw [beginRaw, List.length_append, length_beBytes, length_padTo (by decide), List.length_append]
  rfl

theorem length_propertyRaw (nameOffset : Nat) (value : ByteString) :
    (propertyRaw nameOffset value).length = 12 + roundUp value.length 4 := by
  simp only [propertyRaw, List.length_append, length_beBytes, length_padTo (show 0 < 4 by decide)]
  omega

theorem length_childContent :
    (childContent names cells reservation).bytes.length = (reservation.node cells).encodedLength := by
  simp only [childContent, Content.bytes_node, Content.bytes_property, Content.bytes_nil,
    List.length_append, length_beginRaw, length_propertyRaw, length_beBytes, List.length_nil,
    Reservation.node, Node.encodedLength, encodedLengthAll, List.map_cons, List.map_nil,
    List.sum_cons, List.sum_nil]
  omega

theorem length_parentContent :
    (parentContent names cells reservation).bytes.length =
      (reservation.parent cells).encodedLength := by
  have hchild := length_childContent names cells reservation
  simp only [parentContent, Content.bytes_node, Content.bytes_property, Content.bytes_nil,
    List.length_append, length_beginRaw, length_propertyRaw, length_beBytes, List.length_nil,
    Reservation.parent, Node.encodedLength, encodedLengthAll, List.map_cons, List.map_nil,
    List.sum_cons, List.sum_nil, hchild]
  omega

end Lengths

section Failures

variable {xlen : Xlen} {source : ByteString} {layout : Layout} {root : Root}

/-- What the planner asks of the reserved-memory node, on the tree. -/
theorem Root.accepts_iff {reservation : Reservation} (htwice : root.twice = false) :
    root.Accepts reservation ↔ ∀ node ∈ root.tree.children, node.isReservedMemory = true →
      node.acceptsFirmwareChild = true ∧ node.cells = root.tree.cells ∧
        ∀ child ∈ node.children, child.name ≠ reservation.name := by
  have hrecorded := root.reservedMemory_eq
  have hfew : ¬ 1 < (root.inner.reserved root.innerOffset).length := by
    simpa [Root.twice] using htwice
  rw [root.length_reserved] at hfew
  have hexists := root.inner.reservationExists_eq reservation.name
  rw [← List.head?_filter] at hrecorded
  rw [root.cells_tree]
  have hcases : (root.tree.children.filter Node.isReservedMemory).length = 0 ∨
      (root.tree.children.filter Node.isReservedMemory).length = 1 := by omega
  rcases hcases with hzero | hone
  · have hempty := List.length_eq_zero_iff.mp hzero
    rw [hempty] at hrecorded
    have hnone : root.reservedMemory = none := by simpa using hrecorded
    rw [List.filter_eq_nil_iff] at hempty
    refine ⟨fun _ node hmem hnode => (hempty node hmem hnode).elim, fun _ reserved hsome => ?_⟩
    rw [hnone] at hsome
    cases hsome
  · obtain ⟨only, honly⟩ := List.length_eq_one_iff.mp hone
    have hmemOnly : only ∈ root.tree.children ∧ only.isReservedMemory = true :=
      List.mem_filter.mp (honly ▸ List.mem_singleton_self only)
    have huniq : ∀ node ∈ root.tree.children, node.isReservedMemory = true → node = only :=
      fun node hmem hnode => List.mem_singleton.mp (honly ▸ List.mem_filter.mpr ⟨hmem, hnode⟩)
    rw [honly, List.head?_cons, Option.map_some] at hrecorded
    obtain ⟨reserved, hreserved, hsame⟩ := Option.map_eq_some_iff.mp hrecorded
    obtain ⟨hcells, haccepts⟩ := Prod.mk.inj hsame
    have hfree : root.inner.reservationExists (some reservation.name) = false ↔
        ∀ child ∈ only.children, child.name ≠ reservation.name := by
      rw [hexists, List.any_eq_false]
      constructor
      · intro hall child hchild hname
        refine hall only hmemOnly.1 ?_
        rw [hmemOnly.2, Bool.true_and, List.any_eq_true]
        exact ⟨child, hchild, beq_iff_eq.mpr hname⟩
      · intro hall node hmem hnode
        rw [Bool.and_eq_true, List.any_eq_true] at hnode
        obtain ⟨hname, child, hchild, hsame⟩ := hnode
        rw [huniq node hmem hname] at hchild
        exact hall child hchild (beq_iff_eq.mp hsame)
    constructor
    · intro h node hmem hnode
      obtain ⟨haccept, hsameCells, hnew⟩ := h reserved hreserved
      rw [huniq node hmem hnode, ← haccepts, ← hcells]
      exact ⟨haccept, hsameCells, hfree.mp hnew⟩
    · intro h other hother
      rw [hreserved] at hother
      cases hother
      obtain ⟨haccept, hsameCells, hnew⟩ := h only hmemOnly.1 hmemOnly.2
      rw [haccepts, hcells]
      exact ⟨haccept, hsameCells, hfree.mpr hnew⟩

/-- The block grows by the node of the reservation. -/
theorem Accepted.length_reserve (h : Accepted xlen source layout root) (hidden : List ByteString)
    (names : NewStrings) (reservation : Reservation) :
    (root.reserve hidden names reservation).block.length =
      layout.structureBlock.length + (root.tree.inserted reservation).encodedLength := by
  obtain ⟨before, after, hblock, hinsert⟩ := Root.insert_eq h.valid hidden names reservation
  have hlength := root.length_reserved
  have htotal : before.length + after.length = layout.structureBlock.length := by
    rw [← List.length_append, ← hblock, Root.length_block_hide h.valid, h.block]
  cases hreserved : root.reservedMemory with
  | some reserved =>
    have hsome := List.length_pos_of_mem (List.mem_of_mem_head? hreserved)
    rw [hlength] at hsome
    obtain ⟨node, hnode⟩ := List.exists_mem_of_length_pos hsome
    have hany : root.tree.children.any Node.isReservedMemory = true :=
      List.any_eq_true.mpr ⟨node, List.mem_filter.mp hnode⟩
    simp only [hreserved] at hinsert
    rw [hinsert.2, Node.inserted, if_pos hany, root.cells_tree, ← length_childContent names]
    simp only [List.length_append]
    omega
  | none =>
    rw [List.head?_eq_none_iff.mp hreserved, List.length_nil, eq_comm, List.length_eq_zero_iff,
      List.filter_eq_nil_iff] at hlength
    have hany : ¬ root.tree.children.any Node.isReservedMemory = true := by
      rw [List.any_eq_true]
      rintro ⟨node, hmem, hnode⟩
      exact hlength node hmem hnode
    simp only [hreserved] at hinsert
    rw [hinsert.2, Node.inserted, if_neg hany, root.cells_tree, ← length_parentContent names]
    simp only [List.length_append]
    omega

/-! ### Writing does not panic -/

@[simp] theorem safe_toU32 {value : Nat} : Safe (toU32 value) := by
  unfold toU32
  split
  · exact safe_ok
  · exact safe_fail

@[simp] theorem safe_pushCells {output : ByteString} {value count : Nat} :
    Safe (pushCells output value count) := by
  unfold pushCells
  split
  · exact safe_toU32.bind fun _ _ => safe_pure
  split
  · exact safe_pure
  · exact safe_fail

@[simp] theorem safe_pushBeginNode {output name : ByteString} : Safe (pushBeginNode output name) :=
  safe_reject.bind fun _ _ => safe_pure

@[simp] theorem safe_pushProperty {output value : ByteString} {nameOffset : Nat} :
    Safe (pushProperty output nameOffset value) :=
  safe_toU32.bind fun _ _ => safe_pure

@[simp] theorem safe_appendString {strings name : ByteString} : Safe (appendString strings name) :=
  safe_toU32.bind fun _ _ => safe_pure

@[simp] theorem safe_writeHeaderField {output : ByteString} {offset value : Nat} :
    Safe (writeHeaderField xlen output offset value) :=
  safe_toU32.bind fun _ _ => safe_addUsize.bind fun _ _ => safe_orFail.bind fun _ _ => safe_pure

theorem safe_rebuild (hsource : headerSize ≤ layout.source.length)
    (structureBlock strings : ByteString) : Safe (rebuild xlen layout structureBlock strings) := by
  have hheader := safe_indexTo hsource
  simp [rebuild, safe_bind_iff, hheader]

theorem safe_appendNames (strings : ByteString) : Safe (appendNames strings) := by
  simp [appendNames, safe_bind_iff]

theorem safe_firmwareChild (names : NewStrings) (cells : CellCounts) (reservation : Reservation)
    (childName : ByteString) : Safe (firmwareChild names cells reservation childName) := by
  simp [firmwareChild, safe_bind_iff]

theorem safe_firmwareParent (names : NewStrings) (cells : CellCounts) (child : ByteString) :
    Safe (firmwareParent names cells child) := by
  simp [firmwareParent, safe_bind_iff]

/-- The insertion is inside the block. -/
theorem Accepted.safe_addFirmwareReservation (h : Accepted xlen source layout root)
    (hidden : List ByteString) (reservation : Reservation) :
    Safe (addFirmwareReservation xlen layout (root.plan hidden (some reservation.name))
      (root.hide hidden).block reservation reservation.name) := by
  obtain ⟨_, _, _, hlaid⟩ := h.laidOut
  have hsource : headerSize ≤ layout.source.length := by
    have hle := List.length_take_le' headerSize layout.source
    rwa [hlaid.header_length] at hle
  obtain ⟨before, after, hblock, hinsert⟩ :=
    Root.insert_eq h.valid hidden (newStrings layout.strings) reservation
  have hrest : ∀ (insertion strings : ByteString), Safe (do
      let _ ← addUsize xlen (root.hide hidden).block.length insertion.length
      let front ← indexTo (root.hide hidden).block before.length
      let back ← indexFrom (root.hide hidden).block before.length
      rebuild xlen layout (front ++ insertion ++ back) strings) := by
    intro insertion strings
    have hle : before.length ≤ (root.hide hidden).block.length := by simp [hblock]
    exact safe_addUsize.bind fun _ _ => (safe_indexTo hle).bind fun _ _ =>
      (safe_indexFrom hle).bind fun _ _ => safe_rebuild hsource _ _
  have hplan : (root.plan hidden (some reservation.name)).reservedMemory = root.reservedMemory := rfl
  unfold addFirmwareReservation
  refine safe_reject.bind fun _ _ => safe_reject.bind fun _ _ => (safe_appendNames _).bind
    fun names _ => (safe_firmwareChild _ _ _ _).bind fun child _ => ?_
  rw [hplan]
  cases hreserved : root.reservedMemory with
  | some reserved =>
    simp only [hreserved] at hinsert
    simp only [pure_bind, ← hinsert.1]
    exact hrest child names.strings
  | none =>
    simp only [hreserved] at hinsert
    have hend : (root.plan hidden (some reservation.name)).rootEnd = before.length := hinsert.1.symm
    simp only [pure_bind, hend]
    exact (safe_firmwareParent _ _ _).bind fun parent _ => hrest parent names.strings

theorem Accepted.safe_prepare (h : Accepted xlen source layout root)
    (firmwareReservation : Option Reservation) (hidden : List ByteString) :
    Safe (prepareNextStage xlen source firmwareReservation hidden) := by
  cases firmwareReservation with
  | none =>
    rw [h.prepare_none]
    exact safe_reject.bind fun _ _ => safe_reject.bind fun _ _ => safe_pure
  | some reservation =>
    have hnops : nopNodes layout.structureBlock
        (root.plan hidden (some reservation.name)).hiddenNodes = .ok (root.hide hidden).block := by
      rw [← h.block]
      exact Root.nopNodes_block h.valid hidden _
    rw [prepareNextStage_eq]
    refine safe_reject.bind fun _ hpaths => ?_
    have hpaths := reject_eq_ok_iff.mp hpaths
    simp only [h.parse, ok_bind, Option.map_some, h.plan_eq hpaths, bind_assoc, pure_bind, hnops]
    exact safe_reject.bind fun _ _ => h.safe_addFirmwareReservation hidden reservation

theorem any_badPath_iff {hidden : List ByteString} :
    hidden.any badPath = false ↔
      ∀ path ∈ hidden, ¬ (path.head? ≠ some 0x2f ∨ path = ascii "/" ∨ 0 ∈ path) := by
  rw [List.any_eq_false]
  simp only [badPath_eq_true_iff]

theorem Root.twice_iff :
    root.twice = false ↔ ¬ 1 < (root.tree.children.filter Node.isReservedMemory).length := by
  rw [Root.twice, decide_eq_false_iff_not, root.length_reserved]

theorem Node.acceptsFirmwareChild_iff {node : Node} :
    node.acceptsFirmwareChild = true ↔ node.isEnabled = true ∧
      node.lookup (ascii "#address-cells") ≠ none ∧ node.lookup (ascii "#size-cells") ≠ none ∧
      node.lookup (ascii "ranges") = some [] := by
  simp only [Node.acceptsFirmwareChild, Bool.and_eq_true, beq_iff_eq, Option.isSome_iff_ne_none,
    and_assoc]

/-- The size that the header allows. -/
theorem Accepted.size_iff (h : Accepted xlen source layout root) (hidden : List ByteString)
    (reservation : Reservation) :
    roundUp (rebuiltEnd layout (root.reserve hidden (newStrings layout.strings) reservation).block
        (newStrings layout.strings).strings) 4 < 2 ^ 32 ↔
      ¬ ∃ word ∈ headerWords layout
        (layout.structureBlock.length + (root.tree.inserted reservation).encodedLength)
        (layout.strings.length + (newNames.map fun name => name.length + 1).sum), 2 ^ 32 ≤ word := by
  have hstrings : (newStrings layout.strings).strings.length =
      layout.strings.length + (newNames.map fun name => name.length + 1).sum := by
    simp only [newStrings, List.length_append]
    rfl
  rw [exists_headerWord_iff, rebuiltEnd, h.length_reserve, hstrings, not_le]

/-- The call returns exactly when there is no reason to refuse. -/
theorem Accepted.prepare_returns_iff (h : Accepted xlen source layout root)
    (firmwareReservation : Option Reservation) (hidden : List ByteString) :
    (∃ output, prepareNextStage xlen source firmwareReservation hidden = .ok output) ↔
      ¬ Refused layout root.tree hidden firmwareReservation := by
  constructor
  · rintro ⟨output, hprepare⟩ hrefused
    have hbase : hidden.any badPath = false ∧ root.twice = false := by
      cases firmwareReservation with
      | none =>
        rw [h.prepare_none] at hprepare
        simp only [bind_eq_ok_iff, reject_eq_ok_iff] at hprepare
        obtain ⟨_, hpaths, _, htwice, -⟩ := hprepare
        exact ⟨hpaths, htwice⟩
      | some reservation =>
        obtain ⟨hpaths, htwice, -⟩ := ((h.prepare_some_iff hidden reservation).mp hprepare).1
        exact ⟨hpaths, htwice⟩
    have hsome : ∀ {reservation : Reservation}, firmwareReservation = some reservation →
        root.Accepts reservation ∧ root.cells.Narrow ∧ reservation.Fits root.cells ∧
          roundUp (rebuiltEnd layout
            (root.reserve hidden (newStrings layout.strings) reservation).block
            (newStrings layout.strings).strings) 4 < 2 ^ 32 := by
      rintro reservation rfl
      exact ((h.prepare_some_iff hidden reservation).mp hprepare).1.2.2
    have haccepts : ∀ {reservation : Reservation}, firmwareReservation = some reservation → _ :=
      fun hreservation => (Root.accepts_iff hbase.2).mp (hsome hreservation).1
    cases hrefused with
    | path mem bad => exact any_badPath_iff.mp hbase.1 _ mem bad
    | twice two => exact Root.twice_iff.mp hbase.2 two
    | disabled mem name status =>
      obtain ⟨haccept, -⟩ := haccepts rfl _ mem name
      rw [(Node.acceptsFirmwareChild_iff.mp haccept).1] at status
      cases status
    | lacksCells mem name lacks =>
      obtain ⟨haccept, -⟩ := haccepts rfl _ mem name
      obtain ⟨-, haddress, hsize, -⟩ := Node.acceptsFirmwareChild_iff.mp haccept
      exact lacks.elim haddress hsize
    | lacksRanges mem name lacks =>
      obtain ⟨haccept, -⟩ := haccepts rfl _ mem name
      exact lacks (Node.acceptsFirmwareChild_iff.mp haccept).2.2.2
    | otherCells mem name differ => exact differ (haccepts rfl _ mem name).2.1
    | taken mem name child_mem same => exact (haccepts rfl _ mem name).2.2 _ child_mem same
    | cellCounts wide =>
      rw [root.cells_tree] at wide
      exact wide (hsome rfl).2.1
    | large large =>
      rw [root.cells_tree] at large
      exact large (hsome rfl).2.2.1
    | header mem large =>
      exact (h.size_iff hidden _).mp (hsome rfl).2.2.2 ⟨_, mem, large⟩
  · intro hrefused
    have hpaths : hidden.any badPath = false :=
      any_badPath_iff.mpr fun path hmem hbad => hrefused (.path hmem hbad)
    have htwice : root.twice = false := Root.twice_iff.mpr fun htwo => hrefused (.twice htwo)
    cases firmwareReservation with
    | none =>
      refine ⟨replaced layout (root.hide hidden).block, ?_⟩
      rw [h.prepare_none, hpaths, htwice]
      rfl
    | some reservation =>
      have haccepts : root.Accepts reservation := by
        refine (Root.accepts_iff htwice).mpr fun node hmem hnode => ⟨?_, ?_, ?_⟩
        · refine Node.acceptsFirmwareChild_iff.mpr ⟨?_, fun hnone => ?_, fun hnone => ?_, ?_⟩
          · by_contra hstatus
            exact hrefused (.disabled hmem hnode (Bool.eq_false_iff.mpr hstatus))
          · exact hrefused (.lacksCells hmem hnode (.inl hnone))
          · exact hrefused (.lacksCells hmem hnode (.inr hnone))
          · by_contra hranges
            exact hrefused (.lacksRanges hmem hnode hranges)
        · by_contra hcells
          exact hrefused (.otherCells hmem hnode hcells)
        · exact fun child hchild hsame => hrefused (.taken hmem hnode hchild hsame)
      have hcells : root.cells.Narrow := by
        by_contra hwide
        exact hrefused (.cellCounts (root.cells_tree ▸ hwide))
      have hfits : reservation.Fits root.cells := by
        by_contra hlarge
        exact hrefused (.large (root.cells_tree ▸ hlarge))
      have hsize := (h.size_iff hidden reservation).mpr (by
        rintro ⟨word, hmem, hlarge⟩
        exact hrefused (.header hmem hlarge))
      exact ⟨_, (h.prepare_some_iff hidden reservation).mpr
        ⟨⟨hpaths, htwice, haccepts, hcells, hfits, hsize⟩, rfl⟩⟩

/-- `prepare_next_stage` fails on a blob that validates for one of the reasons only, and
planning for a second reserved-memory node only. -/
theorem prepareNextStage_fails_iff (firmwareReservation : Option Reservation)
    (hidden : List ByteString) (hvalid : validate xlen source = .ok ()) :
    ∃ layout blob, Layout.parse xlen source = .ok layout ∧ decode xlen source = .ok blob ∧
      ((∃ e, prepareNextStage xlen source firmwareReservation hidden = fail e) ↔
        Refused layout blob.root hidden firmwareReservation) ∧
      (ascii "/" ∉ hidden → ∀ reservationName,
        ((∃ edits, planEdits xlen layout.structureBlock layout.strings hidden reservationName =
          .ok edits) ↔ (blob.root.children.filter Node.isReservedMemory).length ≤ 1)) := by
  obtain ⟨layout, root, h⟩ := validate_iff_accepted.mp hvalid
  obtain ⟨_, _, _, hlaid⟩ := h.laidOut
  obtain ⟨bootCpu, hword⟩ := hlaid.exists_bootCpu
  refine ⟨layout, ⟨layout.reservations, bootCpu, root.tree⟩, h.parse,
    h.decode_iff.mpr ⟨rfl, hword, rfl⟩, ?_, fun hslash reservationName => ?_⟩
  · have hreturns := h.prepare_returns_iff firmwareReservation hidden
    constructor
    · rintro ⟨e, herror⟩
      by_contra hrefused
      obtain ⟨output, houtput⟩ := hreturns.mpr hrefused
      rw [herror] at houtput
      exact fail_ne_ok houtput
    · intro hrefused
      refine (h.safe_prepare firmwareReservation hidden).exists_error fun output houtput => ?_
      exact hreturns.mp ⟨output, houtput⟩ hrefused
  · rw [← h.block, Root.planEdits_eq h.valid h.room hslash, ← root.length_reserved]
    simp only [bind_eq_ok_iff, reject_eq_ok_iff, decide_eq_false_iff_not, not_lt, pure_eq_ok_iff]
    constructor
    · rintro ⟨_, _, hfew, -⟩
      exact hfew
    · exact fun hfew => ⟨_, (), hfew, rfl⟩

end Failures

/-- A hidden path without its slash, and a reservation whose size needs a second cell. -/
theorem prepareNextStage_fails_small :
    (∃ e, prepareNextStage .rv64 smallBlob none [ascii "a"] = fail e) ∧
      ∃ e, prepareNextStage .rv64 smallBlob (some ⟨0, 0x100000000, by decide⟩) [] = fail e := by
  have hvalid : validate .rv64 smallBlob = .ok () := by decide +kernel
  refine ⟨?_, ?_⟩
  · obtain ⟨layout, blob, -, -, hiff, -⟩ := prepareNextStage_fails_iff none [ascii "a"] hvalid
    exact hiff.mpr (.path (List.mem_singleton_self _) (.inl (by decide)))
  · obtain ⟨layout, blob, -, hblob, hiff, -⟩ :=
      prepareNextStage_fails_iff (some ⟨0, 0x100000000, by decide⟩) [] hvalid
    have hcells : ((decode .rv64 smallBlob).toOption.all fun blob =>
        decide (blob.root.cells = ⟨2, 1⟩)) = true := by decide +kernel
    rw [hblob, Except.toOption, Option.all_some, decide_eq_true_eq] at hcells
    refine hiff.mpr (.large ?_)
    rw [hcells]
    decide

end RustSbi.DeviceTree
