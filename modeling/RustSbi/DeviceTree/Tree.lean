import RustSbi.DeviceTree.NextStage

/-!
The tree that a blob describes: a decoder for the format, and the two edits as edits
of the tree. The decoder reads the same tokens as the walks of the source, and on a
blob that validates it always returns.
-/

namespace RustSbi.DeviceTree

open Bytes

/-! ## Trees -/

/-- A node with its properties and its children, in their order. -/
inductive Node
  | mk (name : ByteString) (properties : List (ByteString × ByteString)) (children : List Node)

namespace Node

def name : Node → ByteString
  | mk name _ _ => name

def properties : Node → List (ByteString × ByteString)
  | mk _ properties _ => properties

def children : Node → List Node
  | mk _ _ children => children

section

variable (name : ByteString) (properties : List (ByteString × ByteString)) (children : List Node)

@[simp] theorem name_mk : (mk name properties children).name = name := rfl

@[simp] theorem properties_mk : (mk name properties children).properties = properties := rfl

@[simp] theorem children_mk : (mk name properties children).children = children := rfl

end

/-- The value of a property; a later declaration replaces an earlier one. -/
def lookup (node : Node) (name : ByteString) : Option ByteString :=
  (node.properties.reverse.find? fun property => property.1 == name).map Prod.snd

/-- The cell counts for the children of a node. -/
def cells (node : Node) : CellCounts :=
  ⟨((node.lookup (ascii "#address-cells")).map readBE).getD defaultAddressCells,
    ((node.lookup (ascii "#size-cells")).map readBE).getD defaultSizeCells⟩

/-- The node is called `reserved-memory`, with or without a unit address. -/
def isReservedMemory (node : Node) : Bool := EditPlanner.isReservedMemoryName node.name

@[simp] theorem isReservedMemory_mk (name : ByteString)
    (properties : List (ByteString × ByteString)) (children : List Node) :
    (mk name properties children).isReservedMemory = EditPlanner.isReservedMemoryName name := rfl

end Node

/-- What a blob describes. -/
structure Blob where
  reservations : ByteString
  bootCpu : Nat
  root : Node

/-! ## Decoding -/

/-- The open nodes of the decoder, the innermost first, and the root once it is closed. -/
structure Builder where
  stack : List Node
  root : Option Node

/-- The decoder of a structure block. -/
def builder : Visitor Builder Node where
  beginNode _ name s :=
    if s.stack.isEmpty && s.root.isSome then fail .invalidArgs
    else .ok { s with stack := .mk name [] [] :: s.stack }
  checkProperty _ := .ok ()
  property name value s :=
    match s.stack with
    | [] => fail .invalidArgs
    | .mk own properties children :: outer =>
      .ok { s with stack := .mk own (properties ++ [(name, value)]) children :: outer }
  endNode _ _ s :=
    match s.stack with
    | [] => fail .invalidArgs
    | [node] => .ok ⟨[], some node⟩
    | node :: .mk own properties children :: outer =>
      .ok { s with stack := .mk own properties (children ++ [node]) :: outer }
  finish _ s := orFail s.root .invalidArgs

/-- The offset of the boot CPU in the header. -/
def bootCpuOffset : Nat := 28

/-- The decoder of a blob. -/
def decode (xlen : Xlen) (source : ByteString) : Fallible Blob := do
  let layout ← Layout.parse xlen source
  let bootCpu ← readU32 xlen source bootCpuOffset
  let root ← builder.walk xlen layout.structureBlock layout.strings 0 ⟨[], none⟩
  return ⟨layout.reservations, bootCpu, root⟩

/-- The properties of a content. -/
def Content.properties : Content → List (ByteString × ByteString)
  | .nil => []
  | .nop rest => rest.properties
  | .property _ name value rest => (name, value) :: rest.properties
  | .node _ _ _ rest => rest.properties

/-- The nodes of a content. -/
def Content.children : Content → List Node
  | .nil => []
  | .nop rest => rest.children
  | .property _ _ _ rest => rest.children
  | .node _ name inner rest => .mk name inner.properties inner.children :: rest.children

section Builder

variable (offset stop : Nat) (name own value : ByteString)
  (properties : List (ByteString × ByteString)) (children outer : List Node) (node : Node)

theorem builder_beginNode :
    builder.beginNode offset name ⟨node :: outer, none⟩ =
      .ok ⟨.mk name [] [] :: node :: outer, none⟩ := rfl

theorem builder_checkProperty (s : Builder) : builder.checkProperty s = .ok () := rfl

theorem builder_property :
    builder.property name value ⟨.mk own properties children :: outer, none⟩ =
      .ok ⟨.mk own (properties ++ [(name, value)]) children :: outer, none⟩ := rfl

theorem builder_endNode :
    builder.endNode offset stop ⟨node :: .mk own properties children :: outer, none⟩ =
      .ok ⟨.mk own properties (children ++ [node]) :: outer, none⟩ := rfl

end Builder

theorem visitContent_builder (c : Content) (offset : Nat) (name : ByteString)
    (properties : List (ByteString × ByteString)) (children outer : List Node) :
    builder.visitContent c offset ⟨.mk name properties children :: outer, none⟩ =
      .ok ⟨.mk name (properties ++ c.properties) (children ++ c.children) :: outer, none⟩ := by
  induction c generalizing offset name properties children outer with
  | nil => simp [Content.properties, Content.children]
  | nop rest ih =>
    rw [Visitor.visitContent_nop]
    exact ih _ name properties children outer
  | property raw own value rest ih =>
    rw [Visitor.visitContent_property, builder_checkProperty, ok_bind, builder_property, ok_bind, ih,
      Content.properties, Content.children, List.append_assoc, List.singleton_append]
  | node raw own inner rest ihInner ihRest =>
    rw [Visitor.visitContent_node, builder_beginNode, ok_bind, ihInner, ok_bind, builder_endNode,
      ok_bind, ihRest, Content.properties, Content.children, List.append_assoc,
      List.singleton_append, List.nil_append, List.nil_append]

/-- The root that a block describes. -/
def Root.tree (root : Root) : Node := .mk [] root.inner.properties root.inner.children

theorem builder_walk {xlen : Xlen} {strings : ByteString} {root : Root}
    (hvalid : root.Valid xlen strings) (hroom : root.block.length < xlen.words) :
    builder.walk xlen root.block strings 0 ⟨[], none⟩ = .ok root.tree := by
  have hbegin : ∀ offset, builder.beginNode offset [] ⟨[], none⟩ = .ok ⟨[.mk [] [] []], none⟩ :=
    fun _ => rfl
  have hend : ∀ offset stop node, builder.endNode offset stop ⟨[node], none⟩ =
      .ok ⟨[], some node⟩ := fun _ _ _ => rfl
  rw [Visitor.walk_block _ hroom hvalid.content_spelled, Root.content, Visitor.visitContent_nops,
    Visitor.visitContent_node, hbegin, ok_bind, visitContent_builder, ok_bind, hend, ok_bind,
    Visitor.visitContent_nops, Visitor.visitContent_nil, ok_bind]
  rfl

theorem LaidOut.exists_bootCpu {layout : Layout}
    {reservationsOffset stringsOffset lastCompatible : Nat}
    (h : LaidOut layout reservationsOffset stringsOffset lastCompatible) :
    ∃ bootCpu, HasWord layout.source bootCpuOffset bootCpu := by
  have hheader := h.header_length
  have hlen : bootCpuOffset + 4 ≤ layout.source.length := by
    have hle := List.length_take_le' headerSize layout.source
    rw [hheader] at hle
    exact le_trans (by decide) hle
  obtain ⟨word, hword⟩ := exists_slice (Nat.le_add_right bootCpuOffset 4) hlen
  obtain ⟨hstands, hfour⟩ := slice_eq_some_iff_standsAt.mp hword
  have hlength : word.length = 4 := by omega
  have hlt := readBE_lt word
  have hbytes := beBytes_readBE word
  rw [hlength] at hlt hbytes
  exact ⟨readBE word, hlt, by rwa [hbytes]⟩

/-- The blob that accepted parts describe. -/
def Accepted.Describes (layout : Layout) (root : Root) (blob : Blob) : Prop :=
  blob.reservations = layout.reservations ∧ HasWord layout.source bootCpuOffset blob.bootCpu ∧
    blob.root = root.tree

theorem Accepted.decode_iff {xlen : Xlen} {source : ByteString} {layout : Layout} {root : Root}
    (h : Accepted xlen source layout root) {blob : Blob} :
    decode xlen source = .ok blob ↔ Accepted.Describes layout root blob := by
  have hwalk := builder_walk h.valid h.room
  rw [h.block] at hwalk
  simp only [decode, h.parse, ok_bind, bind_eq_ok_iff, hwalk, pure_eq_ok_iff,
    readU32_iff_hasWord (show bootCpuOffset ≤ headerSize by decide), Describes,
    h.source]
  obtain ⟨reservations, bootCpu, tree⟩ := blob
  simp only [Blob.mk.injEq]
  constructor
  · rintro ⟨_, hword, rfl, rfl, rfl⟩
    exact ⟨rfl, hword, rfl⟩
  · rintro ⟨rfl, hword, rfl⟩
    exact ⟨bootCpu, hword, rfl, rfl, rfl⟩

end RustSbi.DeviceTree
