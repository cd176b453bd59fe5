import RustSbi.DeviceTree.Tree

/-!
The rewriting for the next stage as an edit of the tree. Hidden nodes go with all
that is below them, a reservation is one more child of the reserved-memory node or
of a fresh one, and nothing else changes.
-/

namespace RustSbi.DeviceTree

open Bytes

/-! ## Edits of a tree -/

/-- The absolute path of a node, from the names that lead to it below the root. -/
def pathOf (names : List ByteString) : ByteString := names.flatMap fun name => ascii "/" ++ name

mutual

/-- The node without the nodes at hidden paths; the names lead to it. -/
def Node.prune (hidden : List ByteString) (names : List ByteString) : Node → Node
  | .mk name properties children => .mk name properties (pruneAll hidden names children)

/-- The same for the children of a node, which go when they are hidden themselves. -/
def pruneAll (hidden : List ByteString) (names : List ByteString) : List Node → List Node
  | [] => []
  | node :: rest =>
    if pathOf (names ++ [node.name]) ∈ hidden then pruneAll hidden names rest
    else node.prune hidden (names ++ [node.name]) :: pruneAll hidden names rest

end

mutual

/-- The nodes below a node, each with the names that lead to it. -/
def Node.descendants (names : List ByteString) : Node → List (List ByteString × Node)
  | .mk _ _ children => descendantsAll names children

/-- Nodes and what is below them. -/
def descendantsAll (names : List ByteString) : List Node → List (List ByteString × Node)
  | [] => []
  | node :: rest =>
    (names ++ [node.name], node) :: (node.descendants (names ++ [node.name]) ++ descendantsAll names rest)

end

/-- The node of a reservation, in the cells of its parent. -/
def Reservation.node (reservation : Reservation) (cells : CellCounts) : Node :=
  .mk reservation.name [(ascii "reg", reservation.reg cells), (ascii "no-map", [])] []

/-- A fresh reserved-memory node with a reservation. -/
def Reservation.parent (reservation : Reservation) (cells : CellCounts) : Node :=
  .mk (ascii "reserved-memory")
    [(ascii "#address-cells", beBytes 4 cells.addressCells),
      (ascii "#size-cells", beBytes 4 cells.sizeCells), (ascii "ranges", [])]
    [reservation.node cells]

namespace Node

/-- One more child, the last. -/
def addChild (node child : Node) : Node := .mk node.name node.properties (node.children ++ [child])

@[simp] theorem addChild_mk (name : ByteString) (properties : List (ByteString × ByteString))
    (children : List Node) (child : Node) :
    (mk name properties children).addChild child = mk name properties (children ++ [child]) := rfl

/-- The reservation under a reserved-memory node. -/
def addReservation (reservation : Reservation) (node : Node) : Node :=
  if node.isReservedMemory then node.addChild (reservation.node node.cells) else node

/-- A root with the reservation, in its reserved-memory node or in a fresh one. -/
def reserve (root : Node) (reservation : Reservation) : Node :=
  if root.children.any isReservedMemory then
    .mk root.name root.properties (root.children.map (addReservation reservation))
  else root.addChild (reservation.parent root.cells)

/-- The tree for the next stage. -/
def edit (root : Node) (reservation : Option Reservation) (hidden : List ByteString) : Node :=
  match reservation with
  | none => root.prune hidden []
  | some reservation => (root.prune hidden []).reserve reservation

end Node

/-- Every node below the root has a name, without a slash. -/
def Node.Plain (root : Node) : Prop := ∀ p ∈ root.descendants [], p.2.name ≠ [] ∧ 0x2f ∉ p.2.name

instance (root : Node) : Decidable root.Plain := inferInstanceAs (Decidable (∀ p ∈ _, _))

/-- No hidden path is that of a reserved-memory node of the root. -/
def Node.KeepsReserved (root : Node) (hidden : List ByteString) : Prop :=
  ∀ node ∈ root.children, node.isReservedMemory = true → pathOf [node.name] ∉ hidden

instance (root : Node) (hidden : List ByteString) : Decidable (root.KeepsReserved hidden) :=
  inferInstanceAs (Decidable (∀ node ∈ _, _))

/-! ## Hiding -/

/-- The planner's path of a node. -/
def plannerPath (names : List ByteString) : ByteString :=
  names.foldl (fun path name => EditPlanner.pushName path name false) (ascii "/")

theorem plannerPath_append (names : List ByteString) (name : ByteString) :
    plannerPath (names ++ [name]) = EditPlanner.pushName (plannerPath names) name false := by
  rw [plannerPath, List.foldl_append]
  rfl

/-- The planner's path of a child of the root. -/
theorem pushName_slash (name : ByteString) :
    EditPlanner.pushName (ascii "/") name false = pathOf [name] := by
  have hslash : (ascii "/").length = 1 := rfl
  simp [EditPlanner.pushName, pathOf, hslash]

/-- The planner writes absolute paths, as long as every name on the way is one. -/
theorem plannerPath_eq {names : List ByteString} (hnames : ∀ name ∈ names, name ≠ [])
    (hne : names ≠ []) : plannerPath names = pathOf names := by
  induction names using List.reverseRecOn with
  | nil => exact (hne rfl).elim
  | append_singleton names name ih =>
    have hslash : (ascii "/").length = 1 := rfl
    rcases List.eq_nil_or_concat' names with rfl | ⟨front, last, rfl⟩
    · exact pushName_slash name
    · have hlast : last ≠ [] := hnames last (by simp)
      have hpath := ih (fun name hmem => hnames name (List.mem_append_left _ hmem)) (by simp)
      have hlong : 1 < (plannerPath (front ++ [last])).length := by
        have hpos := List.length_pos_iff.mpr hlast
        rw [hpath, pathOf, List.flatMap_append]
        simp only [List.flatMap_cons, List.flatMap_nil, List.length_append, hslash]
        omega
      rw [plannerPath_append, EditPlanner.pushName, if_neg Bool.false_ne_true, if_pos hlong, hpath]
      simp [pathOf]

namespace Content

@[simp] theorem children_nops (n : Nat) (rest : Content) :
    (nops n rest).children = rest.children := by
  induction n with
  | zero => rfl
  | succ n ih => exact ih

@[simp] theorem properties_nops (n : Nat) (rest : Content) :
    (nops n rest).properties = rest.properties := by
  induction n with
  | zero => rfl
  | succ n ih => exact ih

theorem children_append (a b : Content) : (a ++ b).children = a.children ++ b.children := by
  induction a with
  | nil => rfl
  | nop rest ih => exact ih
  | property raw name value rest ih => exact ih
  | node raw name inner rest _ ih => exact congrArg _ ih

theorem properties_append (a b : Content) :
    (a ++ b).properties = a.properties ++ b.properties := by
  induction a with
  | nil => rfl
  | nop rest ih => exact ih
  | property raw name value rest ih => exact congrArg _ ih
  | node raw name inner rest _ ih => exact ih

theorem properties_hide (c : Content) (hidden : List ByteString) (path : ByteString) :
    (c.hide hidden path).properties = c.properties := by
  induction c with
  | nil => rfl
  | nop rest ih => exact ih
  | property raw name value rest ih => exact congrArg ((name, value) :: ·) ih
  | node raw name inner rest _ ih =>
    rw [hide]
    split
    · rw [properties_nops]
      exact ih
    · exact ih

/-- Hiding takes the hidden nodes out of the tree. -/
theorem children_hide (c : Content) (hidden : List ByteString) {names : List ByteString}
    (hnames : ∀ name ∈ names, name ≠ []) (hplain : ∀ p ∈ descendantsAll names c.children, p.2.name ≠ []) :
    (c.hide hidden (plannerPath names)).children = pruneAll hidden names c.children := by
  induction c generalizing names with
  | nil => rfl
  | nop rest ih => exact ih hnames hplain
  | property raw name value rest ih => exact ih hnames hplain
  | node raw name inner rest ihInner ihRest =>
    simp only [children, descendantsAll, Node.descendants, Node.name_mk, List.forall_mem_cons,
      List.forall_mem_append] at hplain
    obtain ⟨hname, hinner, hrest⟩ := hplain
    have hinside : ∀ other ∈ names ++ [name], other ≠ [] := by
      intro other hmem
      rcases List.mem_append.mp hmem with hmem | hmem
      · exact hnames other hmem
      · rwa [List.mem_singleton.mp hmem]
    have hpath : EditPlanner.pushName (plannerPath names) name false = pathOf (names ++ [name]) := by
      rw [← plannerPath_append, plannerPath_eq hinside (by simp)]
    have hdown := ihInner hinside hinner
    rw [plannerPath_append, hpath] at hdown
    by_cases hhidden : pathOf (names ++ [name]) ∈ hidden
    · simp only [hide, hpath, hhidden, ↓reduceIte, children_nops, children, pruneAll, Node.name_mk,
        ihRest hnames hrest]
    · simp only [hide, hpath, hhidden, ↓reduceIte, children, pruneAll, Node.name_mk, Node.prune, hdown,
        ihRest hnames hrest, properties_hide]

end Content

theorem Root.tree_hide (root : Root) (hidden : List ByteString) (hplain : root.tree.Plain) :
    (root.hide hidden).tree = root.tree.prune hidden [] := by
  have hnames : ∀ p ∈ descendantsAll [] root.inner.children, p.2.name ≠ [] :=
    fun p hmem => (hplain p hmem).1
  have hchildren : (root.inner.hide hidden (plannerPath [])).children =
      pruneAll hidden [] root.inner.children := root.inner.children_hide hidden nofun hnames
  simp only [tree, Root.hide, Content.properties_hide, Node.prune]
  rw [← hchildren]
  rfl

/-! ## What the planner reads of a node -/

namespace Node

/-- The node has no status, or one of `ok` and `okay`. -/
def isEnabled (node : Node) : Bool :=
  (node.lookup (ascii "status")).all fun value =>
    OpenNode.stripZero value == ascii "ok" || OpenNode.stripZero value == ascii "okay"

/-- The node is enabled, declares both cell counts and has empty `ranges`. -/
def acceptsFirmwareChild (node : Node) : Bool :=
  node.isEnabled && (node.lookup (ascii "#address-cells")).isSome &&
    (node.lookup (ascii "#size-cells")).isSome &&
    node.lookup (ascii "ranges") == some []

theorem lookup_nil (own wanted : ByteString) (children : List Node) :
    (mk own [] children).lookup wanted = none := rfl

theorem lookup_cons (own name value wanted : ByteString)
    (properties : List (ByteString × ByteString)) (children : List Node) :
    (mk own ((name, value) :: properties) children).lookup wanted =
      ((mk own properties children).lookup wanted).or
        (if name = wanted then some value else none) := by
  simp only [lookup, properties_mk, List.reverse_cons, List.find?_append, Option.map_or]
  by_cases h : name = wanted <;> simp [h]

end Node

/-- One more property declares what its name says. -/
theorem Declared.property_eq (d : Declared) (isReservedMemory : Bool) (name value : ByteString) :
    d.property isReservedMemory name value =
      ⟨(if name = ascii "#address-cells" then some (readBE value) else none).or d.addressCells,
        (if name = ascii "#size-cells" then some (readBE value) else none).or d.sizeCells,
        if name = ascii "status" ∧ isReservedMemory then
          OpenNode.stripZero value == ascii "ok" || OpenNode.stripZero value == ascii "okay"
        else d.enabled,
        if name = ascii "ranges" ∧ isReservedMemory then value.isEmpty else d.emptyRanges⟩ := by
  unfold property
  split
  · next h =>
    subst h
    have hsize : ascii "#address-cells" ≠ ascii "#size-cells" := by decide +kernel
    have hstatus : ascii "#address-cells" ≠ ascii "status" := by decide +kernel
    have hranges : ascii "#address-cells" ≠ ascii "ranges" := by decide +kernel
    simp [hsize, hstatus, hranges]
  split
  · next h =>
    subst h
    have hstatus : ascii "#size-cells" ≠ ascii "status" := by decide +kernel
    have hranges : ascii "#size-cells" ≠ ascii "ranges" := by decide +kernel
    simp [hstatus, hranges]
  split
  · next h =>
    obtain ⟨rfl, -⟩ := h
    have hstatus : ascii "ranges" ≠ ascii "status" := by decide +kernel
    rw [if_neg fun h => hstatus h.1]
    rfl
  split
  · rfl
  · rfl

namespace Content

/-- The planner keeps the last value of each property it reads. -/
theorem declared_eq (c : Content) (isReservedMemory : Bool) (d : Declared) (own : ByteString)
    (children : List Node) :
    c.declared isReservedMemory d =
      ⟨(((Node.mk own c.properties children).lookup (ascii "#address-cells")).map readBE).or
          d.addressCells,
        (((Node.mk own c.properties children).lookup (ascii "#size-cells")).map readBE).or d.sizeCells,
        if isReservedMemory then
          (((Node.mk own c.properties children).lookup (ascii "status")).map fun value =>
            OpenNode.stripZero value == ascii "ok" ||
              OpenNode.stripZero value == ascii "okay").getD d.enabled
        else d.enabled,
        if isReservedMemory then
          (((Node.mk own c.properties children).lookup (ascii "ranges")).map List.isEmpty).getD
            d.emptyRanges
        else d.emptyRanges⟩ := by
  induction c generalizing d with
  | nil => simp [declared, properties, Node.lookup_nil]
  | nop rest ih => exact ih d
  | property raw name value rest ih =>
    rw [declared, ih, Declared.property_eq, properties]
    simp only [Node.lookup_cons, Option.map_or, Option.or_assoc]
    congr 1
    · split <;> rfl
    · split <;> rfl
    · cases isReservedMemory with
      | false => simp
      | true =>
        cases (Node.mk own rest.properties children).lookup (ascii "status") <;>
          by_cases h : name = ascii "status" <;> simp [h]
    · cases isReservedMemory with
      | false => simp
      | true =>
        cases (Node.mk own rest.properties children).lookup (ascii "ranges") <;>
          by_cases h : name = ascii "ranges" <;> simp [h]
  | node raw name inner rest _ ih => exact ih d

theorem cells_declared (c : Content) (isReservedMemory : Bool) (own : ByteString)
    (children : List Node) :
    (c.declared isReservedMemory .fresh).cells = (Node.mk own c.properties children).cells := by
  rw [c.declared_eq isReservedMemory .fresh own children]
  simp [Declared.cells, Node.cells, Declared.fresh]

theorem acceptsFirmwareChild_declared (c : Content) (own : ByteString) (children : List Node) :
    (c.declared true .fresh).acceptsFirmwareChild =
      (Node.mk own c.properties children).acceptsFirmwareChild := by
  rw [c.declared_eq true .fresh own children]
  simp only [Declared.acceptsFirmwareChild, Node.acceptsFirmwareChild, Node.isEnabled,
    Declared.fresh, ↓reduceIte, Option.or_none, Option.isSome_map]
  congr 1
  · cases (Node.mk own c.properties children).lookup (ascii "status") <;> rfl
  · cases (Node.mk own c.properties children).lookup (ascii "ranges") with
    | none => rfl
    | some value => cases value <;> rfl

/-- The planner records the reserved-memory nodes of the root. -/
theorem reserved_eq (c : Content) (offset : Nat) :
    (c.reserved offset).map (fun reserved => (reserved.cells, reserved.acceptsFirmwareChild)) =
      (c.children.filter Node.isReservedMemory).map fun node =>
        (node.cells, node.acceptsFirmwareChild) := by
  induction c generalizing offset with
  | nil => rfl
  | nop rest ih => exact ih _
  | property raw name value rest ih => exact ih _
  | node raw name inner rest _ ih =>
    have hcells := inner.cells_declared true name inner.children
    have haccepts := inner.acceptsFirmwareChild_declared name inner.children
    by_cases hname : EditPlanner.isReservedMemoryName name = true
    · have hnode : (Node.mk name inner.properties inner.children).isReservedMemory = true := hname
      simp only [reserved, hname, ↓reduceIte, ih, children, List.filter_cons_of_pos hnode,
        List.map_cons, hcells, haccepts, List.singleton_append]
    · have hnode : ¬ (Node.mk name inner.properties inner.children).isReservedMemory = true := hname
      simp only [reserved, hname, Bool.false_eq_true, ↓reduceIte, List.nil_append, ih, children,
        List.filter_cons_of_neg hnode]

theorem hasChild_eq (c : Content) (name : ByteString) :
    c.hasChild (some name) = c.children.any fun node => node.name == name := by
  induction c with
  | nil => rfl
  | nop rest ih => exact ih
  | property raw own value rest ih => exact ih
  | node raw own inner rest _ ih =>
    have hbeq : (some name == some own) = (own == name) := by
      rw [Bool.eq_iff_iff, beq_iff_eq, beq_iff_eq, Option.some.injEq, eq_comm]
    simp only [hasChild, children, List.any_cons, Node.name_mk, ih, hbeq]

theorem reservationExists_eq (c : Content) (name : ByteString) :
    c.reservationExists (some name) = c.children.any fun node =>
      node.isReservedMemory && node.children.any fun child => child.name == name := by
  induction c with
  | nil => rfl
  | nop rest ih => exact ih
  | property raw own value rest ih => exact ih
  | node raw own inner rest _ ih =>
    simp only [reservationExists, children, List.any_cons, Node.isReservedMemory_mk, Node.children_mk,
      ih, hasChild_eq]

/-! ## The reservation -/

theorem exists_of_mem_hide {c : Content} {hidden : List ByteString} {path : ByteString}
    {node : Node} (hmem : node ∈ (c.hide hidden path).children) :
    ∃ original ∈ c.children, original.name = node.name ∧ original.properties = node.properties := by
  induction c with
  | nil => cases hmem
  | nop rest ih => exact ih hmem
  | property raw name value rest ih => exact ih hmem
  | node raw name inner rest _ ih =>
    rw [hide] at hmem
    split at hmem
    · rw [children_nops] at hmem
      obtain ⟨original, horiginal, hsame⟩ := ih hmem
      exact ⟨original, List.mem_cons_of_mem _ horiginal, hsame⟩
    · rcases List.mem_cons.mp hmem with rfl | hmem
      · refine ⟨_, List.mem_cons_self, rfl, ?_⟩
        simp [properties_hide]
      · obtain ⟨original, horiginal, hsame⟩ := ih hmem
        exact ⟨original, List.mem_cons_of_mem _ horiginal, hsame⟩

theorem exists_mem_hide {c : Content} {hidden : List ByteString} {path : ByteString} {node : Node}
    (hmem : node ∈ c.children) (hvisible : EditPlanner.pushName path node.name false ∉ hidden) :
    ∃ kept ∈ (c.hide hidden path).children, kept.name = node.name := by
  induction c with
  | nil => cases hmem
  | nop rest ih => exact ih hmem
  | property raw name value rest ih => exact ih hmem
  | node raw name inner rest _ ih =>
    rcases List.mem_cons.mp hmem with rfl | hmem
    · rw [Node.name_mk] at hvisible
      rw [hide, if_neg hvisible]
      exact ⟨_, List.mem_cons_self, rfl⟩
    · obtain ⟨kept, hkept, hname⟩ := ih hmem
      rw [hide]
      split
      · rw [children_nops]
        exact ⟨kept, hkept, hname⟩
      · exact ⟨kept, List.mem_cons_of_mem _ hkept, hname⟩

/-- A reservation in a reserved-memory node that is not hidden is one more child of it. -/
theorem children_reserve {c child : Content} {hidden : List ByteString} {path : ByteString}
    {node : Node} (hchild : child.children = [node]) (hproperties : child.properties = [])
    (hone : (c.children.filter Node.isReservedMemory).length = 1)
    (hkept : ∀ node ∈ c.children, node.isReservedMemory = true →
      EditPlanner.pushName path node.name false ∉ hidden) :
    (c.reserve hidden path child).children = (c.hide hidden path).children.map fun other =>
      if other.isReservedMemory then other.addChild node else other := by
  induction c with
  | nil => cases hone
  | nop rest ih => exact ih hone hkept
  | property raw name value rest ih => exact ih hone hkept
  | node raw name inner rest _ ih =>
    obtain ⟨hname, hrest⟩ := List.forall_mem_cons.mp hkept
    rw [Node.name_mk] at hname
    by_cases hreserved : EditPlanner.isReservedMemoryName name = true
    · have hvisible := hname hreserved
      have hself : (Node.mk name inner.properties inner.children).isReservedMemory = true := hreserved
      rw [children, List.filter_cons_of_pos hself, List.length_cons, Nat.add_eq_right,
        List.length_eq_zero_iff, List.filter_eq_nil_iff] at hone
      have hsame : (rest.hide hidden path).children.map (fun other =>
          if other.isReservedMemory then other.addChild node else other) =
          (rest.hide hidden path).children := by
        refine (List.map_congr_left fun other hmem => if_neg ?_).trans (List.map_id' _)
        obtain ⟨original, horiginal, hsame, -⟩ := exists_of_mem_hide hmem
        rw [Node.isReservedMemory, ← hsame]
        exact hone original horiginal
      simp only [reserve, hide, hreserved, hvisible, ↓reduceIte, children, List.map_cons, hsame,
        Node.isReservedMemory_mk, Node.addChild_mk, properties_append, children_append, hchild, hproperties, List.append_nil]
    · have hself : ¬ (Node.mk name inner.properties inner.children).isReservedMemory = true := hreserved
      rw [children, List.filter_cons_of_neg hself] at hone
      have hnext := ih hone hrest
      by_cases hhidden : EditPlanner.pushName path name false ∈ hidden
      · simp only [reserve, hide, hreserved, hhidden, ↓reduceIte, Bool.false_eq_true, children_nops,
          hnext]
      · simp only [reserve, hide, hreserved, hhidden, ↓reduceIte, Bool.false_eq_true, children,
          List.map_cons, hnext, Node.isReservedMemory_mk]

theorem properties_reserve (c : Content) {child : Content} (hidden : List ByteString)
    (path : ByteString) (hproperties : child.properties = []) :
    (c.reserve hidden path child).properties = c.properties := by
  induction c with
  | nil => rfl
  | nop rest ih => exact ih
  | property raw name value rest ih => exact congrArg ((name, value) :: ·) ih
  | node raw name inner rest _ ih =>
    simp only [reserve]
    split
    · split
      · rw [properties_nops, properties_append, hproperties]
        exact rest.properties_hide hidden path
      · exact rest.properties_hide hidden path
    · split
      · rw [properties_nops]
        exact ih
      · exact ih

end Content

namespace Root

theorem cells_tree (root : Root) : root.tree.cells = root.cells :=
  (root.inner.cells_declared false [] root.inner.children).symm

/-- The recorded reserved-memory nodes are those of the tree. -/
theorem length_reserved (root : Root) : (root.inner.reserved root.innerOffset).length =
    (root.tree.children.filter Node.isReservedMemory).length := by
  have hreserved := congrArg List.length (root.inner.reserved_eq root.innerOffset)
  rwa [List.length_map, List.length_map] at hreserved

theorem reservedMemory_eq (root : Root) :
    root.reservedMemory.map (fun reserved => (reserved.cells, reserved.acceptsFirmwareChild)) =
      (root.tree.children.find? Node.isReservedMemory).map fun node =>
        (node.cells, node.acceptsFirmwareChild) := by
  rw [reservedMemory, ← List.head?_map, root.inner.reserved_eq, List.head?_map, List.head?_filter]
  rfl

theorem cells_tree_hide (root : Root) (hidden : List ByteString) :
    (root.hide hidden).tree.cells = root.cells := by
  rw [← root.cells_tree]
  simp only [tree, Root.hide, Node.cells, Node.lookup, Node.properties_mk, Content.properties_hide]

theorem tree_reserve {root : Root} {hidden : List ByteString} {reservation : Reservation}
    (names : NewStrings) (htwice : root.twice = false) (haccepts : root.Accepts reservation)
    (hkept : root.tree.KeepsReserved hidden) :
    (root.reserve hidden names reservation).tree =
      (root.hide hidden).tree.reserve reservation := by
  have hcells := root.cells_tree_hide hidden
  have hlength := root.length_reserved
  cases hreserved : root.reservedMemory with
  | none =>
    rw [List.head?_eq_none_iff.mp hreserved, List.length_nil, eq_comm, List.length_eq_zero_iff,
      List.filter_eq_nil_iff] at hlength
    have hany : ¬ (root.hide hidden).tree.children.any Node.isReservedMemory = true := by
      rw [List.any_eq_true]
      rintro ⟨node, hmem, hnode⟩
      obtain ⟨original, horiginal, hsame, -⟩ := Content.exists_of_mem_hide hmem
      refine hlength original horiginal ?_
      rwa [Node.isReservedMemory, hsame]
    rw [Node.reserve, if_neg hany, hcells]
    have hproperties : (parentContent names root.cells reservation).properties = [] := rfl
    have hchildren : (parentContent names root.cells reservation).children =
        [reservation.parent root.cells] := rfl
    simp only [Root.reserve, hreserved, tree, Root.hide, Content.properties_append,
      Content.children_append, Node.addChild_mk, hproperties, hchildren, List.append_nil]
  | some reserved =>
    obtain ⟨-, hsame, -⟩ := haccepts reserved hreserved
    have hfew : ¬ 1 < (root.inner.reserved root.innerOffset).length := by
      simpa [Root.twice] using htwice
    have hsome := List.length_pos_of_mem (List.mem_of_mem_head? hreserved)
    have hone : (root.tree.children.filter Node.isReservedMemory).length = 1 := by omega
    have hvisible : ∀ node ∈ root.inner.children, node.isReservedMemory = true →
        EditPlanner.pushName (ascii "/") node.name false ∉ hidden := by
      intro node hmem hnode
      rw [pushName_slash]
      exact hkept node hmem hnode
    have hproperties : (childContent names root.cells reservation).properties = [] := rfl
    have hchild : (childContent names root.cells reservation).children =
        [reservation.node root.cells] := rfl
    have hchildren := Content.children_reserve hchild hproperties hone hvisible
    have hany : (root.hide hidden).tree.children.any Node.isReservedMemory = true := by
      obtain ⟨node, hmem⟩ := List.exists_mem_of_length_pos (hone ▸ Nat.one_pos)
      obtain ⟨hnode, hname⟩ := List.mem_filter.mp hmem
      obtain ⟨kept, hkept, hsame⟩ := Content.exists_mem_hide hnode (hvisible node hnode hname)
      refine List.any_eq_true.mpr ⟨kept, hkept, ?_⟩
      rwa [Node.isReservedMemory, hsame]
    have hall : ∀ node ∈ (root.hide hidden).tree.children, node.isReservedMemory = true →
        node.cells = root.cells := by
      intro node hmem hnode
      obtain ⟨original, horiginal, hname, hsameProperties⟩ := Content.exists_of_mem_hide hmem
      obtain ⟨only, honly⟩ := List.length_eq_one_iff.mp hone
      have hfound : original ∈ root.tree.children.filter Node.isReservedMemory := by
        refine List.mem_filter.mpr ⟨horiginal, ?_⟩
        rwa [Node.isReservedMemory, hname]
      rw [honly, List.mem_singleton] at hfound
      have hrecorded := root.reservedMemory_eq
      rw [hreserved, ← List.head?_filter, honly] at hrecorded
      have honlyCells : only.cells = reserved.cells :=
        (congrArg Prod.fst (Option.some.inj hrecorded)).symm
      rw [← hsame, ← honlyCells, ← hfound]
      simp only [Node.cells, Node.lookup, hsameProperties]
    rw [Node.reserve, if_pos hany]
    simp only [Root.reserve, hreserved, tree, hchildren, Root.hide, Node.name_mk, Node.properties_mk,
      Node.children_mk, Content.properties_hide, Content.properties_reserve _ _ _ hproperties]
    refine congrArg (Node.mk [] root.inner.properties) (List.map_congr_left fun node hmem => ?_)
    rw [Node.addReservation]
    split
    · next hnode => rw [hall node hmem hnode]
    · rfl

end Root

/-! ## The rewritten blob -/

section Prepare

variable {xlen : Xlen} {source output : ByteString} {layout : Layout} {root : Root}

theorem Accepted.bootCpu_hidden (h : Accepted xlen source layout root) (hidden : List ByteString)
    {bootCpu : Nat} (hword : HasWord layout.source bootCpuOffset bootCpu) :
    HasWord (replaced layout (root.hide hidden).block) bootCpuOffset bootCpu := by
  obtain ⟨_, _, _, hlaid⟩ := h.laidOut
  have hlen : (root.hide hidden).block.length = layout.structureBlock.length := by
    rw [Root.length_block_hide h.valid, h.block]
  exact hlaid.replaced_keeps hlen (by decide) hword

theorem Accepted.bootCpu_rebuilt (h : Accepted xlen source layout root)
    (structureBlock strings : ByteString) {bootCpu : Nat}
    (hword : HasWord layout.source bootCpuOffset bootCpu) :
    HasWord (rebuilt layout structureBlock strings) bootCpuOffset bootCpu := by
  obtain ⟨_, _, _, hlaid⟩ := h.laidOut
  exact hlaid.rebuilt_keeps structureBlock strings (by decide) hword (by decide)

/-- The blob for the next stage describes the edited tree, with the reservation map
and the boot CPU of the source. -/
theorem prepareNextStage_edits (firmwareReservation : Option Reservation)
    (hidden : List ByteString) (hvalid : validate xlen source = .ok ())
    (hprepare : prepareNextStage xlen source firmwareReservation hidden = .ok output) :
    ∃ blob, decode xlen source = .ok blob ∧
      (blob.root.Plain → blob.root.KeepsReserved hidden →
        decode xlen output =
          .ok { blob with root := blob.root.edit firmwareReservation hidden }) := by
  obtain ⟨layout, root, h⟩ := validate_iff_accepted.mp hvalid
  obtain ⟨_, _, _, hlaid⟩ := h.laidOut
  obtain ⟨bootCpu, hword⟩ := hlaid.exists_bootCpu
  refine ⟨⟨layout.reservations, bootCpu, root.tree⟩, h.decode_iff.mpr ⟨rfl, hword, rfl⟩, ?_⟩
  intro hplain hkept
  cases firmwareReservation with
  | none =>
    rw [h.prepare_none] at hprepare
    simp only [bind_eq_ok_iff, pure_eq_ok_iff] at hprepare
    obtain ⟨-, -, -, -, rfl⟩ := hprepare
    have haccepted := h.hidden hidden
    exact haccepted.decode_iff.mpr
      ⟨rfl, h.bootCpu_hidden hidden hword, (root.tree_hide hidden hplain).symm⟩
  | some reservation =>
    have hresult := (h.prepare_some_iff hidden reservation).mp hprepare
    obtain ⟨-, htwice, haccepts, hcells, -, hsize⟩ := hresult.1
    have haccepted := h.reserved hidden haccepts hcells hsize
    have htree := Root.tree_reserve (newStrings layout.strings) htwice haccepts hkept
    rw [root.tree_hide hidden hplain] at htree
    rw [hresult.2]
    exact haccepted.decode_iff.mpr ⟨rfl, h.bootCpu_rebuilt _ _ hword, htree.symm⟩

end Prepare

/-- The node `a` hidden and memory reserved. -/
theorem prepareNextStage_edits_small :
    ∃ output blob, prepareNextStage .rv64 smallBlob (some ⟨0x80000000, 0x40000, by decide⟩)
        [ascii "/a"] = .ok output ∧ decode .rv64 smallBlob = .ok blob ∧
      decode .rv64 output = .ok { blob with
        root := blob.root.edit (some ⟨0x80000000, 0x40000, by decide⟩) [ascii "/a"] } := by
  have hvalid : validate .rv64 smallBlob = .ok () := by decide +kernel
  have hok : (prepareNextStage .rv64 smallBlob (some ⟨0x80000000, 0x40000, by decide⟩)
      [ascii "/a"]).isOk = true := by decide +kernel
  have htree : ((decode .rv64 smallBlob).toOption.all fun blob =>
      decide (blob.root.Plain ∧ blob.root.KeepsReserved [ascii "/a"])) = true := by decide +kernel
  obtain ⟨output, hprepare⟩ := exists_ok_of_isOk hok
  obtain ⟨blob, hblob, hdecode⟩ := prepareNextStage_edits _ _ hvalid hprepare
  rw [hblob, Except.toOption, Option.all_some, decide_eq_true_eq] at htree
  exact ⟨output, blob, hprepare, hblob, hdecode htree.1 htree.2⟩

end RustSbi.DeviceTree
