import RustSbi.DeviceTree.TreeEdit

/-!
The grammar of the binary format. A structure block derives one tree: the tokens of a
node are its name, its properties, its children and `END_NODE`, with `NOP`s between
them. The tree has a bounded depth, its cell declarations are single cells, and the
length of each `reg` is one that the cells of the parent allow. The validator accepts
these blobs and no others.
-/

namespace RustSbi.DeviceTree

open Bytes

/-! ## Derivations -/

/-- The bytes of properties, with `NOP`s. -/
def DerivesProperties (strings : ByteString) : List (ByteString × ByteString) → ByteString → Prop
  | [], bytes => ∃ n, bytes = nops n
  | (name, value) :: rest, bytes => ∃ n raw tail, bytes = nops n ++ raw ++ tail ∧
      Spells strings raw (.property name value) ∧ DerivesProperties strings rest tail

mutual

/-- The bytes of a node. -/
def Node.Derives (strings : ByteString) : Node → ByteString → Prop
  | .mk name properties children, bytes => ∃ raw front back,
      bytes = raw ++ front ++ back ++ beBytes 4 endNodeWord ∧
        Spells strings raw (.beginNode name) ∧ DerivesProperties strings properties front ∧
        DerivesAll strings children back

/-- The bytes of nodes, with `NOP`s. -/
def DerivesAll (strings : ByteString) : List Node → ByteString → Prop
  | [], bytes => ∃ n, bytes = nops n
  | node :: rest, bytes => ∃ n head tail, bytes = nops n ++ head ++ tail ∧
      node.Derives strings head ∧ DerivesAll strings rest tail

end

/-- The bytes of a structure block: a root without a name, `END`, and only `NOP`s around
them. -/
def DerivesBlock (strings : ByteString) (tree : Node) (block : ByteString) : Prop :=
  tree.name = [] ∧ ∃ lead lag trailing body,
    block = nops lead ++ body ++ nops lag ++ beBytes 4 endWord ++ nops trailing ∧
      tree.Derives strings body

/-! ## Trees of the grammar -/

/-- At most one property of the name, of one cell. -/
def SingleCell (name : ByteString) (properties : List (ByteString × ByteString)) : Prop :=
  (properties.filter fun property => property.1 == name).length ≤ 1 ∧
    ∀ property ∈ properties, property.1 = name → property.2.length = 4

/-- The size of an entry of `reg`. -/
def CellCounts.tupleSize (cells : CellCounts) : Nat := 4 * (cells.addressCells + cells.sizeCells)

/-- The value is a number of entries. -/
def Tuples (cells : CellCounts) (value : ByteString) : Prop :=
  0 < cells.tupleSize ∧ cells.tupleSize ∣ value.length

/-- The size of an entry can be computed: the cell counts add up to a `u32`, and the size
is a `usize`. -/
def CellCounts.Computable (xlen : Xlen) (cells : CellCounts) : Prop :=
  cells.addressCells + cells.sizeCells < 2 ^ 32 ∧ cells.tupleSize < xlen.words

mutual

/-- The rules for a node at a depth, by what is asked of a `reg`. -/
def Node.Grammatical (reg : CellCounts → ByteString → Prop) (depth : Nat)
    (parentCells : CellCounts) : Node → Prop
  | .mk name properties children =>
    depth ≤ maxFdtDepth ∧ SingleCell (ascii "#address-cells") properties ∧
      SingleCell (ascii "#size-cells") properties ∧
      (∀ property ∈ properties, property.1 = ascii "reg" → reg parentCells property.2) ∧
      GrammaticalAll reg (depth + 1) (Node.mk name properties children).cells children

/-- The rules for the children of a node. -/
def GrammaticalAll (reg : CellCounts → ByteString → Prop) (depth : Nat)
    (parentCells : CellCounts) : List Node → Prop
  | [] => True
  | node :: rest => node.Grammatical reg depth parentCells ∧ GrammaticalAll reg depth parentCells rest

end

/-- The blob is laid out, and its structure block derives a tree that keeps the rules. -/
def InGrammar (reg : CellCounts → ByteString → Prop) (source : ByteString) : Prop :=
  ∃ layout reservationsOffset stringsOffset lastCompatible tree, layout.source = source ∧
    LaidOut layout reservationsOffset stringsOffset lastCompatible ∧
    DerivesBlock layout.strings tree layout.structureBlock ∧
    tree.Grammatical reg 1 ⟨defaultAddressCells, defaultSizeCells⟩

/-! ## The properties of a node -/

/-- The validator on the properties of a node. -/
def recordAll (xlen : Xlen) (parentCells : CellCounts) :
    ValidationNode → List (ByteString × ByteString) → Fallible ValidationNode
  | known, [] => .ok known
  | known, (name, value) :: rest => do
    let known ← known.record xlen parentCells name value
    recordAll xlen parentCells known rest

/-- A cell declaration is a single cell, of which there is no other yet. -/
def SingleCellAfter (earlier : Option Nat) (name : ByteString)
    (properties : List (ByteString × ByteString)) : Prop :=
  (properties.filter fun property => property.1 == name).length + earlier.toList.length ≤ 1 ∧
    ∀ property ∈ properties, property.1 = name → property.2.length = 4

theorem validateRegLength_eq_ok_iff {xlen : Xlen} {value : ByteString} {cells : CellCounts} :
    validateRegLength xlen value cells = .ok () ↔ Tuples cells value ∧ cells.Computable xlen := by
  simp only [validateRegLength, bind_eq_ok_iff, reject_eq_ok_iff, decide_eq_false_iff_not, not_le,
    Bool.or_eq_false_iff, beq_eq_false_iff_ne, bne_eq_false_iff_eq, Tuples, CellCounts.Computable,
    CellCounts.tupleSize]
  rw [Nat.mul_comm 4]
  constructor
  · rintro ⟨-, hsum, -, -, -, hbytes, hzero, hmod⟩
    exact ⟨⟨Nat.pos_of_ne_zero hzero, Nat.dvd_of_mod_eq_zero hmod⟩, hsum, hbytes⟩
  · rintro ⟨⟨hpos, hdvd⟩, hsum, hbytes⟩
    exact ⟨(), hsum, (), by omega, (), hbytes, hpos.ne', Nat.mod_eq_zero_of_dvd hdvd⟩

section Record

variable {xlen : Xlen} {parentCells : CellCounts} {known known' : ValidationNode}
  {name value : ByteString} {properties : List (ByteString × ByteString)}

theorem record_address :
    known.record xlen parentCells (ascii "#address-cells") value = .ok known' ↔
      value.length = 4 ∧ known.addressCells = none ∧
        known' = { known with addressCells := some (readBE value) } := by
  simp only [ValidationNode.record, ↓reduceIte, bind_eq_ok_iff, singleCell_eq_ok_iff,
    reject_eq_ok_iff, Option.isSome_eq_false_iff, Option.isNone_iff_eq_none, pure_eq_ok_iff]
  constructor
  · rintro ⟨_, ⟨hlen, rfl⟩, -, hnone, rfl⟩
    exact ⟨hlen, hnone, rfl⟩
  · rintro ⟨hlen, hnone, rfl⟩
    exact ⟨_, ⟨hlen, rfl⟩, (), hnone, rfl⟩

theorem record_size :
    known.record xlen parentCells (ascii "#size-cells") value = .ok known' ↔
      value.length = 4 ∧ known.sizeCells = none ∧
        known' = { known with sizeCells := some (readBE value) } := by
  have hne : ascii "#size-cells" ≠ ascii "#address-cells" := by decide +kernel
  simp only [ValidationNode.record, hne, ↓reduceIte, bind_eq_ok_iff, singleCell_eq_ok_iff,
    reject_eq_ok_iff, Option.isSome_eq_false_iff, Option.isNone_iff_eq_none, pure_eq_ok_iff]
  constructor
  · rintro ⟨_, ⟨hlen, rfl⟩, -, hnone, rfl⟩
    exact ⟨hlen, hnone, rfl⟩
  · rintro ⟨hlen, hnone, rfl⟩
    exact ⟨_, ⟨hlen, rfl⟩, (), hnone, rfl⟩

theorem record_reg_iff :
    known.record xlen parentCells (ascii "reg") value = .ok known' ↔
      (Tuples parentCells value ∧ parentCells.Computable xlen) ∧ known' = known := by
  have haddress : ascii "reg" ≠ ascii "#address-cells" := by decide +kernel
  have hsize : ascii "reg" ≠ ascii "#size-cells" := by decide +kernel
  simp only [ValidationNode.record, haddress, hsize, ↓reduceIte, bind_eq_ok_iff,
    pure_eq_ok_iff]
  constructor
  · rintro ⟨_, hreg, rfl⟩
    exact ⟨validateRegLength_eq_ok_iff.mp hreg, rfl⟩
  · rintro ⟨hreg, rfl⟩
    exact ⟨(), validateRegLength_eq_ok_iff.mpr hreg, rfl⟩

theorem singleCellAfter_cons {earlier : Option Nat} {wanted : ByteString} :
    SingleCellAfter earlier wanted ((name, value) :: properties) ↔
      if name = wanted then value.length = 4 ∧ earlier = none ∧
        SingleCellAfter (some (readBE value)) wanted properties
      else SingleCellAfter earlier wanted properties := by
  simp only [SingleCellAfter, List.filter_cons, beq_iff_eq, List.forall_mem_cons]
  split
  · next h =>
    cases earlier with
    | none =>
      simp only [List.length_cons, Option.toList_none, Option.toList_some, List.length_nil, h,
        true_implies]
      constructor
      · rintro ⟨hfew, hlen, hrest⟩
        exact ⟨hlen, trivial, by omega, hrest⟩
      · rintro ⟨hlen, -, hfew, hrest⟩
        exact ⟨by omega, hlen, hrest⟩
    | some n =>
      simp only [List.length_cons, Option.toList_some, List.length_nil, reduceCtorEq, false_and,
        and_false, iff_false, not_and]
      intro hfew
      omega
  · next h => simp only [h, false_implies, true_and]

theorem recordAll_eq_ok_iff :
    recordAll xlen parentCells known properties = .ok known' ↔
      SingleCellAfter known.addressCells (ascii "#address-cells") properties ∧
      SingleCellAfter known.sizeCells (ascii "#size-cells") properties ∧
      (∀ property ∈ properties, property.1 = ascii "reg" →
        Tuples parentCells property.2 ∧ parentCells.Computable xlen) ∧
      known' = ⟨(((Node.mk [] properties []).lookup (ascii "#address-cells")).map readBE).or
          known.addressCells,
        (((Node.mk [] properties []).lookup (ascii "#size-cells")).map readBE).or known.sizeCells,
        known.hasChild⟩ := by
  have haddressSize : ascii "#address-cells" ≠ ascii "#size-cells" := by decide +kernel
  have haddressReg : ascii "#address-cells" ≠ ascii "reg" := by decide +kernel
  have hsizeReg : ascii "#size-cells" ≠ ascii "reg" := by decide +kernel
  induction properties generalizing known with
  | nil =>
    have hfew : ∀ earlier : Option Nat, earlier.toList.length ≤ 1 := by
      intro earlier
      cases earlier <;> simp
    simp only [recordAll, SingleCellAfter, List.filter_nil, List.length_nil, Nat.zero_add, hfew,
      List.not_mem_nil, false_implies, implies_true, and_self, true_and, Node.lookup_nil,
      Option.map_none, Option.none_or, Except.ok.injEq]
    exact eq_comm
  | cons property rest ih =>
    obtain ⟨name, value⟩ := property
    simp only [recordAll, bind_eq_ok_iff, ih, singleCellAfter_cons, List.forall_mem_cons,
      Node.lookup_cons, Option.map_or, Option.or_assoc]
    by_cases haddress : name = ascii "#address-cells"
    · subst haddress
      simp only [record_address, haddressSize, haddressReg, ↓reduceIte, false_implies, true_and,
        Option.map_some, Option.map_none, Option.some_or, Option.none_or]
      constructor
      · rintro ⟨_, ⟨hlen, hnone, rfl⟩, hfirst, hrest⟩
        exact ⟨⟨hlen, hnone, hfirst⟩, hrest⟩
      · rintro ⟨⟨hlen, hnone, hfirst⟩, hrest⟩
        exact ⟨_, ⟨hlen, hnone, rfl⟩, hfirst, hrest⟩
    by_cases hsize : name = ascii "#size-cells"
    · subst hsize
      simp only [record_size, haddressSize.symm, hsizeReg, ↓reduceIte, false_implies, true_and,
        Option.map_some, Option.map_none, Option.some_or, Option.none_or]
      constructor
      · rintro ⟨_, ⟨hlen, hnone, rfl⟩, hfirst, hsecond, hrest⟩
        exact ⟨hfirst, ⟨hlen, hnone, hsecond⟩, hrest⟩
      · rintro ⟨hfirst, ⟨hlen, hnone, hsecond⟩, hrest⟩
        exact ⟨_, ⟨hlen, hnone, rfl⟩, hfirst, hsecond, hrest⟩
    by_cases hreg : name = ascii "reg"
    · subst hreg
      simp only [record_reg_iff, haddress, hsize, ↓reduceIte, true_implies, Option.map_none,
        Option.none_or]
      constructor
      · rintro ⟨_, ⟨hvalue, rfl⟩, hfirst, hsecond, hthird, hrest⟩
        exact ⟨hfirst, hsecond, ⟨hvalue, hthird⟩, hrest⟩
      · rintro ⟨hfirst, hsecond, ⟨hvalue, hthird⟩, hrest⟩
        exact ⟨_, ⟨hvalue, rfl⟩, hfirst, hsecond, hthird, hrest⟩
    · have hrecord : known.record xlen parentCells name value = .ok known :=
        ValidationNode.record_other haddress hsize hreg
      simp only [hrecord, Except.ok.injEq, exists_eq_left', haddress, hsize, hreg, ↓reduceIte,
        false_implies, true_and, Option.map_none, Option.none_or]

theorem hasChild_of_record (h : known.record xlen parentCells name value = .ok known') :
    known'.hasChild = known.hasChild := by
  have hall : recordAll xlen parentCells known [(name, value)] = .ok known' :=
    bind_eq_ok_iff.mpr ⟨known', h, rfl⟩
  rw [(recordAll_eq_ok_iff.mp hall).2.2.2]

/-- The properties of a node that the validator accepts, and what it knows after them. -/
theorem recordAll_new_iff :
    recordAll xlen parentCells .new properties = .ok known' ↔
      SingleCell (ascii "#address-cells") properties ∧ SingleCell (ascii "#size-cells") properties ∧
      (∀ property ∈ properties, property.1 = ascii "reg" →
        Tuples parentCells property.2 ∧ parentCells.Computable xlen) ∧
      known' = ⟨((Node.mk [] properties []).lookup (ascii "#address-cells")).map readBE,
        ((Node.mk [] properties []).lookup (ascii "#size-cells")).map readBE, false⟩ := by
  rw [recordAll_eq_ok_iff]
  simp only [ValidationNode.new, Option.or_none, SingleCellAfter, SingleCell, Option.toList_none,
    List.length_nil, Nat.add_zero]

end Record

theorem ValidationNode.cells_lookup (name : ByteString)
    (properties : List (ByteString × ByteString)) (children : List Node) (hasChild : Bool) :
    ValidationNode.cells
      ⟨((Node.mk [] properties []).lookup (ascii "#address-cells")).map readBE,
        ((Node.mk [] properties []).lookup (ascii "#size-cells")).map readBE, hasChild⟩ =
      (Node.mk name properties children).cells := rfl

/-! ## What is accepted derives a tree -/

theorem nops_cons (n : Nat) : beBytes 4 nopWord ++ nops n = nops (n + 1) := by
  simp [nops, List.replicate_succ]

theorem DerivesProperties.nop {strings bytes : ByteString}
    {properties : List (ByteString × ByteString)} (h : DerivesProperties strings properties bytes) :
    DerivesProperties strings properties (beBytes 4 nopWord ++ bytes) := by
  cases properties with
  | nil =>
    obtain ⟨n, rfl⟩ := h
    exact ⟨n + 1, nops_cons n⟩
  | cons property rest =>
    obtain ⟨n, raw, tail, rfl, hspells, hrest⟩ := h
    exact ⟨n + 1, raw, tail, by simp only [← nops_cons, List.append_assoc], hspells, hrest⟩

theorem DerivesAll.nop {strings bytes : ByteString} {children : List Node}
    (h : DerivesAll strings children bytes) :
    DerivesAll strings children (beBytes 4 nopWord ++ bytes) := by
  cases children with
  | nil =>
    rw [DerivesAll] at h ⊢
    obtain ⟨n, rfl⟩ := h
    exact ⟨n + 1, nops_cons n⟩
  | cons node rest =>
    rw [DerivesAll] at h ⊢
    obtain ⟨n, head, tail, rfl, hnode, hrest⟩ := h
    exact ⟨n + 1, head, tail, by simp only [← nops_cons, List.append_assoc], hnode, hrest⟩

theorem DerivesAll.nops {strings bytes : ByteString} {children : List Node}
    (h : DerivesAll strings children bytes) (n : Nat) :
    DerivesAll strings children (nops n ++ bytes) := by
  induction n with
  | zero => exact h
  | succ n ih =>
    rw [← nops_cons, List.append_assoc]
    exact ih.nop

section Accepted

variable {xlen : Xlen} {strings : ByteString}

/-- What the validator asks of a `reg`. -/
def RegAccepted (xlen : Xlen) (cells : CellCounts) (value : ByteString) : Prop :=
  Tuples cells value ∧ cells.Computable xlen

/-- After a child only children and `NOP`s follow. -/
theorem properties_of_check {c : Content} {depth : Nat} {parentCells : CellCounts}
    {known known' : ValidationNode} (h : c.check xlen depth parentCells known = .ok known')
    (hchild : known.hasChild = true) : c.properties = [] := by
  induction c generalizing known with
  | nil => rfl
  | nop rest ih => exact ih h hchild
  | property raw name value rest ih =>
    simp only [Content.check, hchild, bind_eq_ok_iff, reject_eq_ok_iff, Bool.true_eq_false, false_and,
      exists_false] at h
  | node raw name inner rest _ ih =>
    simp only [Content.check, bind_eq_ok_iff] at h
    obtain ⟨-, -, _, -, hrest⟩ := h
    exact ih hrest rfl

/-- Content that is checked is properties, then children. -/
theorem derives_of_check {c : Content} (hspelled : c.Spelled strings) {depth : Nat}
    {parentCells : CellCounts} {known known' : ValidationNode}
    (h : c.check xlen depth parentCells known = .ok known') :
    ∃ front back, c.bytes = front ++ back ∧ DerivesProperties strings c.properties front ∧
      DerivesAll strings c.children back := by
  induction c generalizing depth parentCells known known' with
  | nil => exact ⟨[], [], rfl, ⟨0, rfl⟩, by rw [Content.children, DerivesAll]; exact ⟨0, rfl⟩⟩
  | nop rest ih =>
    obtain ⟨front, back, hbytes, hproperties, hchildren⟩ := ih (Content.spelled_nop.mp hspelled) h
    refine ⟨beBytes 4 nopWord ++ front, back, ?_, hproperties.nop, hchildren⟩
    rw [Content.bytes_nop, hbytes, List.append_assoc]
  | property raw name value rest ih =>
    obtain ⟨hspells, hrest⟩ := Content.spelled_property.mp hspelled
    simp only [Content.check, bind_eq_ok_iff] at h
    obtain ⟨-, -, _, -, hcheck⟩ := h
    obtain ⟨front, back, hbytes, hproperties, hchildren⟩ := ih hrest hcheck
    refine ⟨raw ++ front, back, ?_, ⟨0, raw, front, rfl, hspells, hproperties⟩, hchildren⟩
    rw [Content.bytes_property, hbytes, List.append_assoc]
  | node raw name inner rest ihInner ihRest =>
    obtain ⟨hspells, hinner, hrest⟩ := Content.spelled_node.mp hspelled
    simp only [Content.check, bind_eq_ok_iff] at h
    obtain ⟨-, -, _, hcheckInner, hcheck⟩ := h
    obtain ⟨front, back, hbytes, hproperties, hchildren⟩ := ihInner hinner hcheckInner
    obtain ⟨front', back', hbytes', hproperties', hchildren'⟩ := ihRest hrest hcheck
    have hnone : rest.properties = [] := properties_of_check hcheck rfl
    have hself : (Node.mk name inner.properties inner.children).Derives strings
        (raw ++ inner.bytes ++ beBytes 4 endNodeWord) := by
      rw [Node.Derives]
      exact ⟨raw, front, back, by simp only [hbytes, List.append_assoc], hspells, hproperties,
        hchildren⟩
    -- What follows the node are `NOP`s and nodes; the `NOP`s are read as those before a node.
    rw [hnone] at hproperties'
    obtain ⟨n, rfl⟩ := hproperties'
    have htail : DerivesAll strings rest.children rest.bytes := hbytes' ▸ hchildren'.nops n
    refine ⟨[], (Content.node raw name inner rest).bytes, rfl, ?_, ?_⟩
    · rw [Content.properties, hnone]
      exact ⟨0, rfl⟩
    · rw [Content.children, DerivesAll]
      exact ⟨0, _, rest.bytes, by simp only [Content.bytes_node, List.append_assoc]; rfl, hself,
        htail⟩

/-- The rules for the content of a node, by its properties and its children. -/
theorem rules_of_check {c : Content} {depth : Nat} {parentCells : CellCounts}
    {known known' : ValidationNode} (h : c.check xlen depth parentCells known = .ok known') :
    recordAll xlen parentCells known c.properties = .ok { known' with hasChild := known.hasChild } ∧
      GrammaticalAll (RegAccepted xlen) (depth + 1) known'.cells c.children := by
  induction c generalizing depth parentCells known known' with
  | nil =>
    cases h
    exact ⟨rfl, by rw [Content.children, GrammaticalAll]; trivial⟩
  | nop rest ih => exact ih h
  | property raw name value rest ih =>
    simp only [Content.check, bind_eq_ok_iff] at h
    obtain ⟨-, -, known₁, hrecord, hcheck⟩ := h
    obtain ⟨hall, hchildren⟩ := ih hcheck
    have hsame : known₁.hasChild = known.hasChild := hasChild_of_record hrecord
    rw [hsame] at hall
    exact ⟨bind_eq_ok_iff.mpr ⟨known₁, hrecord, hall⟩, hchildren⟩
  | node raw name inner rest ihInner ihRest =>
    simp only [Content.check, bind_eq_ok_iff, reject_eq_ok_iff, decide_eq_false_iff_not,
      not_le] at h
    obtain ⟨-, hdepth, knownInner, hcheckInner, hcheck⟩ := h
    obtain ⟨hall, hchildren⟩ := ihInner hcheckInner
    obtain ⟨-, hchildren'⟩ := ihRest hcheck
    obtain rfl := Content.check_after_child hcheck rfl
    obtain ⟨haddress, hsize, hreg, hknown⟩ := recordAll_new_iff.mp hall
    refine ⟨?_, ?_⟩
    · rw [Content.properties, properties_of_check hcheck rfl]
      rfl
    · rw [Content.children, GrammaticalAll, Node.Grammatical]
      refine ⟨⟨hdepth, haddress, hsize, hreg, ?_⟩, hchildren'⟩
      have hcells : knownInner.cells = (Node.mk name inner.properties inner.children).cells := by
        rw [← ValidationNode.cells_lookup name inner.properties inner.children false, ← hknown]
        rfl
      rw [← hcells]
      exact hchildren

/-! ## What derives a tree is accepted -/

theorem content_of_properties {properties : List (ByteString × ByteString)} {bytes : ByteString}
    (h : DerivesProperties strings properties bytes) {parentCells : CellCounts}
    {known known' : ValidationNode} (hchild : known.hasChild = false)
    (hall : recordAll xlen parentCells known properties = .ok known') (depth : Nat) :
    ∃ c : Content, c.Spelled strings ∧ c.bytes = bytes ∧
      c.check xlen depth parentCells known = .ok known' := by
  induction properties generalizing bytes known with
  | nil =>
    obtain ⟨n, rfl⟩ := h
    cases hall
    refine ⟨.nops n .nil, Content.spelled_nops.mpr Content.spelled_nil, ?_, ?_⟩
    · rw [Content.bytes_nops, Content.bytes_nil, List.append_nil]
      rfl
    · rw [Content.check_nops]
      rfl
  | cons property rest ih =>
    obtain ⟨name, value⟩ := property
    obtain ⟨n, raw, tail, rfl, hspells, htail⟩ := h
    obtain ⟨known₁, hrecord, hrest⟩ := bind_eq_ok_iff.mp hall
    have hchild₁ : known₁.hasChild = false := by rw [hasChild_of_record hrecord, hchild]
    obtain ⟨c, hspelled, rfl, hcheck⟩ := ih htail hchild₁ hrest
    refine ⟨.nops n (.property raw name value c),
      Content.spelled_nops.mpr (Content.spelled_property.mpr ⟨hspells, hspelled⟩), ?_, ?_⟩
    · rw [Content.bytes_nops, Content.bytes_property, List.append_assoc]
      rfl
    · simp only [Content.check_nops, Content.check, hchild, reject_false, ok_bind, hrecord, hcheck]

mutual

theorem Node.content_of_derives :
    ∀ (node : Node) (bytes : ByteString) (depth : Nat) (parentCells : CellCounts),
      node.Derives strings bytes → node.Grammatical (RegAccepted xlen) depth parentCells →
      ∃ raw inner known, bytes = raw ++ Content.bytes inner ++ beBytes 4 endNodeWord ∧
        Spells strings raw (.beginNode node.name) ∧ inner.Spelled strings ∧
        inner.check xlen depth parentCells .new = .ok known
  | .mk name properties children, bytes, depth, parentCells, hderives, hrules => by
    rw [Node.Derives] at hderives
    rw [Node.Grammatical] at hrules
    obtain ⟨raw, front, back, rfl, hspells, hproperties, hchildren⟩ := hderives
    obtain ⟨-, haddress, hsize, hreg, hbelow⟩ := hrules
    obtain ⟨c, hspelled, rfl, hcheck⟩ := content_of_properties hproperties rfl
      (recordAll_new_iff.mpr ⟨haddress, hsize, hreg, rfl⟩) depth
    obtain ⟨c', known', hspelled', rfl, hcheck'⟩ := contents_of_derives children back depth
      parentCells _ _ (ValidationNode.cells_lookup name properties children false) hchildren hbelow
    refine ⟨raw, c ++ c', known', ?_, hspells, Content.spelled_append.mpr ⟨hspelled, hspelled'⟩, ?_⟩
    · simp only [Content.bytes_append, List.append_assoc]
    · rw [Content.check_append, hcheck, ok_bind, hcheck']

theorem contents_of_derives :
    ∀ (children : List Node) (bytes : ByteString) (depth : Nat) (parentCells cells : CellCounts)
      (known : ValidationNode), known.cells = cells → DerivesAll strings children bytes →
      GrammaticalAll (RegAccepted xlen) (depth + 1) cells children →
      ∃ c known', Content.Spelled strings c ∧ c.bytes = bytes ∧
        c.check xlen depth parentCells known = .ok known'
  | [], bytes, depth, parentCells, cells, known, _, hderives, _ => by
    rw [DerivesAll] at hderives
    obtain ⟨n, rfl⟩ := hderives
    refine ⟨.nops n .nil, known, Content.spelled_nops.mpr Content.spelled_nil, ?_, ?_⟩
    · rw [Content.bytes_nops, Content.bytes_nil, List.append_nil]
      rfl
    · rw [Content.check_nops]
      rfl
  | node :: rest, bytes, depth, parentCells, cells, known, hcells, hderives, hrules => by
    rw [DerivesAll] at hderives
    rw [GrammaticalAll] at hrules
    obtain ⟨n, head, tail, rfl, hnode, hrest⟩ := hderives
    obtain ⟨hself, hothers⟩ := hrules
    have hdepth : decide (maxFdtDepth ≤ depth) = false := by
      obtain ⟨name, properties, children⟩ := node
      rw [Node.Grammatical] at hself
      rw [decide_eq_false_iff_not]
      omega
    obtain ⟨raw, inner, knownInner, rfl, hspells, hspelled, hcheck⟩ :=
      Node.content_of_derives node head (depth + 1) cells hnode hself
    obtain ⟨c, known', hspelled', rfl, hcheck'⟩ := contents_of_derives rest tail depth parentCells
      cells { known with hasChild := true } hcells hrest hothers
    refine ⟨.nops n (.node raw node.name inner c), known',
      Content.spelled_nops.mpr (Content.spelled_node.mpr ⟨hspells, hspelled, hspelled'⟩), ?_, ?_⟩
    · simp only [Content.bytes_nops, Content.bytes_node, List.append_assoc]
      rfl
    · simp only [Content.check_nops, Content.check, hdepth, reject_false, ok_bind, hcells, hcheck,
        hcheck']

end

theorem onlyNops_nops (n : Nat) : onlyNops (nops n) = true := by
  induction n with
  | zero => rfl
  | succ n ih =>
    rw [← nops_cons]
    exact ih

theorem onlyNops_iff {bytes : ByteString} : onlyNops bytes = true ↔ ∃ n, bytes = nops n := by
  refine ⟨fun h => ?_, ?_⟩
  · fun_induction onlyNops bytes with
    | case1 => exact ⟨0, rfl⟩
    | case2 a b c d rest ih =>
      obtain ⟨hword, hrest⟩ := Bool.and_eq_true_iff.mp h
      obtain ⟨n, rfl⟩ := ih hrest
      refine ⟨n + 1, ?_⟩
      rw [← nops_cons, ← beq_iff_eq.mp hword]
      rfl
    | case3 => cases h
  · rintro ⟨n, rfl⟩
    exact onlyNops_nops n

/-- The blocks that validate are those that derive a tree of the grammar. -/
theorem derivesBlock_iff {block : ByteString} :
    (∃ root : Root, root.block = block ∧ root.Valid xlen strings) ↔
      ∃ tree, DerivesBlock strings tree block ∧
        tree.Grammatical (RegAccepted xlen) 1 ⟨defaultAddressCells, defaultSizeCells⟩ := by
  constructor
  · rintro ⟨root, rfl, hvalid⟩
    obtain ⟨known, hcheck⟩ := hvalid.checked
    obtain ⟨front, back, hbytes, hproperties, hchildren⟩ := derives_of_check hvalid.spelled hcheck
    obtain ⟨hall, hbelow⟩ := rules_of_check hcheck
    obtain ⟨haddress, hsize, hreg, hknown⟩ := recordAll_new_iff.mp hall
    obtain ⟨trailing, htrailing⟩ := onlyNops_iff.mp hvalid.trailing
    refine ⟨root.tree, ⟨rfl, root.lead, root.lag, trailing,
      root.raw ++ root.inner.bytes ++ beBytes 4 endNodeWord, ?_, ?_⟩, ?_⟩
    · rw [root.block_eq, htrailing]
      simp only [List.append_assoc]
    · rw [Root.tree, Node.Derives]
      exact ⟨root.raw, front, back, by simp only [hbytes, List.append_assoc], hvalid.begins,
        hproperties, hchildren⟩
    · rw [Root.tree, Node.Grammatical]
      refine ⟨by decide, haddress, hsize, hreg, ?_⟩
      have hcells : known.cells = (Node.mk [] root.inner.properties root.inner.children).cells := by
        rw [← ValidationNode.cells_lookup [] root.inner.properties root.inner.children false, ← hknown]
        rfl
      rw [← hcells]
      exact hbelow
  · rintro ⟨tree, ⟨hname, lead, lag, trailing, body, rfl, hderives⟩, hrules⟩
    obtain ⟨raw, inner, known, rfl, hspells, hspelled, hcheck⟩ :=
      Node.content_of_derives tree body 1 _ hderives hrules
    rw [hname] at hspells
    refine ⟨⟨lead, raw, inner, lag, nops trailing⟩, ?_, hspells, hspelled, ⟨known, hcheck⟩,
      onlyNops_nops trailing⟩
    rw [Root.block_eq]
    simp only [List.append_assoc]

end Accepted

/-- `validate` accepts the blobs of the grammar, and no others. -/
theorem validate_iff_grammar (xlen : Xlen) (source : ByteString) :
    validate xlen source = .ok () ↔
      InGrammar (fun cells value => Tuples cells value ∧ cells.Computable xlen) source := by
  rw [validate_iff_accepted]
  constructor
  · rintro ⟨layout, root, hsource, ⟨reservationsOffset, stringsOffset, lastCompatible, hlaid⟩, hblock,
      hvalid⟩
    obtain ⟨tree, hderives, hrules⟩ := derivesBlock_iff.mp ⟨root, hblock, hvalid⟩
    exact ⟨layout, reservationsOffset, stringsOffset, lastCompatible, tree, hsource, hlaid, hderives,
      hrules⟩
  · rintro ⟨layout, reservationsOffset, stringsOffset, lastCompatible, tree, hsource, hlaid, hderives,
      hrules⟩
    obtain ⟨root, hblock, hvalid⟩ := derivesBlock_iff.mpr ⟨tree, hderives, hrules⟩
    exact ⟨layout, root, hsource, ⟨_, _, _, hlaid⟩, hblock, hvalid⟩

/-! ## Cell counts that are too large -/

/-- The strings of the blob below. -/
def wideStrings : ByteString :=
  ascii "#address-cells" ++ [0] ++ (ascii "#size-cells" ++ [0] ++ (ascii "reg" ++ [0]))

/-- A root whose cell counts add up to more than a `u32`, with a node whose `reg` is
empty. -/
def wideTree : Node :=
  .mk [] [(ascii "#address-cells", beBytes 4 0xffffffff), (ascii "#size-cells", beBytes 4 1)]
    [.mk (ascii "c") [(ascii "reg", [])] []]

/-- Its structure block. -/
def wideBlock : ByteString :=
  beginRaw [] ++ (propertyRaw 0 (beBytes 4 0xffffffff) ++ propertyRaw 15 (beBytes 4 1)) ++
    (beginRaw (ascii "c") ++ propertyRaw 27 [] ++ [] ++ beBytes 4 endNodeWord) ++
    beBytes 4 endNodeWord ++ beBytes 4 endWord

/-- Its blob. -/
def wideBlob : ByteString :=
  blobOf [beginNodeWord, 0, propertyWord, 4, 0, 0xffffffff, propertyWord, 4, 15, 1,
    beginNodeWord, 0x63000000, propertyWord, 0, 27, endNodeWord, endNodeWord, endWord] wideStrings

theorem wideBlock_derives : DerivesBlock wideStrings wideTree wideBlock := by
  have haddress : NameAt wideStrings 0 (ascii "#address-cells") :=
    nameAt_of_parts isText_addressCells [] _
  have hsize : NameAt wideStrings 15 (ascii "#size-cells") :=
    nameAt_of_parts isText_sizeCells (ascii "#address-cells" ++ [0]) _
  have hreg : NameAt wideStrings 27 (ascii "reg") := by
    refine ⟨⟨ascii "#address-cells" ++ [0] ++ (ascii "#size-cells" ++ [0]), [], ?_, ?_⟩,
      isText_reg.not_mem, isText_reg.isUtf8⟩ <;> decide +kernel
  have htext : IsText (ascii "c") := by decide +kernel
  refine ⟨rfl, 0, 0, 0, beginRaw [] ++ (propertyRaw 0 (beBytes 4 0xffffffff) ++
    propertyRaw 15 (beBytes 4 1)) ++ (beginRaw (ascii "c") ++ propertyRaw 27 [] ++ [] ++
    beBytes 4 endNodeWord) ++ beBytes 4 endNodeWord, ?_, ?_⟩
  · simp [wideBlock, nops]
  · rw [wideTree, Node.Derives]
    refine ⟨_, _, _, rfl, spells_beginRaw (by simp) rfl, ?_, ?_⟩
    · exact ⟨0, _, _, rfl, spells_propertyRaw haddress (by decide) (by simp), 0, _, [],
        (List.append_nil _).symm, spells_propertyRaw hsize (by decide) (by simp), 0, rfl⟩
    · rw [DerivesAll]
      refine ⟨0, _, [], (List.append_nil _).symm, ?_, ?_⟩
      · rw [Node.Derives]
        refine ⟨_, _, _, rfl, spells_beginRaw htext.not_mem htext.isUtf8, ?_, ?_⟩
        · exact ⟨0, _, [], (List.append_nil _).symm,
            spells_propertyRaw hreg (by decide) (by decide), 0, rfl⟩
        · rw [DerivesAll]
          exact ⟨0, rfl⟩
      · rw [DerivesAll]
        exact ⟨0, rfl⟩

/-- The length of an empty `reg` is a multiple of any size, but the validator computes the
size first. -/
theorem empty_reg_rejected :
    InGrammar Tuples wideBlob ∧ validate .rv64 wideBlob = fail .overflow := by
  refine ⟨?_, by decide +kernel⟩
  have hparse : Layout.parse .rv64 wideBlob =
      .ok ⟨wideBlob, 159, List.replicate 16 0, 56, wideBlock, wideStrings⟩ := by decide +kernel
  obtain ⟨-, reservationsOffset, stringsOffset, lastCompatible, hlaid⟩ := parse_eq_ok_iff.mp hparse
  refine ⟨_, reservationsOffset, stringsOffset, lastCompatible, wideTree, rfl, hlaid,
    wideBlock_derives, ?_⟩
  have hcells : wideTree.cells = ⟨0xffffffff, 1⟩ := by decide +kernel
  have hroot : ∀ name ∈ [ascii "#address-cells", ascii "#size-cells"],
      SingleCell name wideTree.properties := by
    unfold SingleCell
    decide +kernel
  have hnone : ∀ property ∈ wideTree.properties, property.1 ≠ ascii "reg" := by decide +kernel
  have hchild : ∀ name ∈ [ascii "#address-cells", ascii "#size-cells"],
      SingleCell name [(ascii "reg", [])] := by
    unfold SingleCell
    decide +kernel
  rw [wideTree, Node.Grammatical]
  refine ⟨by decide, hroot _ (by simp), hroot _ (by simp),
    fun property hproperty hreg => absurd hreg (hnone property hproperty), ?_⟩
  rw [← wideTree, hcells, GrammaticalAll, GrammaticalAll, Node.Grammatical, GrammaticalAll]
  refine ⟨⟨by decide, hchild _ (by simp), hchild _ (by simp), ?_, trivial⟩, trivial⟩
  intro property hproperty _
  rw [List.mem_singleton.mp hproperty]
  exact ⟨by decide, Nat.dvd_zero _⟩

end RustSbi.DeviceTree
