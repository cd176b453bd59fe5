import RustSbi.DeviceTree.Content

/-!
Validation of the structure block, node by node. The array of `validate_structure`
is a stack of the open nodes; on a stack, the walk over the content of a node leaves
the nodes around it alone. A block validates exactly when it spells one root whose
content passes the checks of its own level and of those below.
-/

namespace RustSbi.DeviceTree

open Bytes

/-! ## Two computations side by side -/

section Agree

variable {α β γ δ : Type}

/-- Both return, with related results, or neither does. -/
def Agree (R : α → β → Prop) : Fallible α → Fallible β → Prop
  | .ok a, .ok b => R a b
  | .error _, .error _ => True
  | _, _ => False

theorem Agree.bind {R : α → β → Prop} {S : γ → δ → Prop} {p : Fallible α} {q : Fallible β}
    {f : α → Fallible γ} {g : β → Fallible δ} (h : Agree R p q)
    (hnext : ∀ a b, R a b → Agree S (f a) (g b)) : Agree S (p >>= f) (q >>= g) := by
  cases p with
  | ok a =>
    cases q with
    | ok b => exact hnext a b h
    | error stop => exact h.elim
  | error stop =>
    cases q with
    | ok b => exact h.elim
    | error stop => trivial

theorem Agree.exists_right {R : α → β → Prop} {p : Fallible α} {q : Fallible β} {a : α}
    (h : Agree R p q) (hp : p = .ok a) : ∃ b, q = .ok b ∧ R a b := by
  subst hp
  cases q with
  | ok b => exact ⟨b, rfl, h⟩
  | error stop => exact h.elim

theorem Agree.exists_left {R : α → β → Prop} {p : Fallible α} {q : Fallible β} {b : β}
    (h : Agree R p q) (hq : q = .ok b) : ∃ a, p = .ok a ∧ R a b := by
  subst hq
  cases p with
  | ok a => exact ⟨a, rfl, h⟩
  | error stop => exact h.elim

theorem Agree.refl {R : α → α → Prop} (h : ∀ a, R a a) (p : Fallible α) : Agree R p p := by
  cases p with
  | ok a => exact h a
  | error stop => trivial

/-- Two visitors that agree at every token agree on a visit. -/
theorem Visitor.visit_agree {σ τ ρ π : Type} {v : Visitor σ ρ} {w : Visitor τ π}
    {R : σ → τ → Prop}
    (hstep : ∀ offset stop token s t, R s t →
      Agree R (v.onToken offset stop token s) (w.onToken offset stop token t))
    (lexemes : List Lexeme) {offset : Nat} {s : σ} {t : τ} (h : R s t) :
    Agree R (v.visit lexemes offset s) (w.visit lexemes offset t) := by
  induction lexemes generalizing offset s t with
  | nil => exact h
  | cons lexeme rest ih =>
    exact (hstep offset _ lexeme.token s t h).bind fun s' t' h' => ih h'

end Agree

/-! ## The stack of open nodes -/

/-- The variables of `validate_structure` with the open nodes as a stack, the
innermost first. -/
structure NodeStack where
  rootSeen : Bool
  stack : List ValidationNode

namespace NodeStack

/-- The cell counts for a `reg` below the open nodes. -/
def cellsOf (outer : List ValidationNode) : CellCounts :=
  (outer.head?.map ValidationNode.cells).getD ⟨defaultAddressCells, defaultSizeCells⟩

/-- `BEGIN_NODE`. -/
def beginNode (t : NodeStack) (name : ByteString) : Fallible NodeStack :=
  match t.stack with
  | [] => do
    reject (t.rootSeen || !name.isEmpty) .invalidArgs
    return ⟨true, [.new]⟩
  | parent :: outer => do
    reject (maxFdtDepth ≤ outer.length + 1) .invalidArgs
    return ⟨t.rootSeen, .new :: { parent with hasChild := true } :: outer⟩

/-- What `PROPERTY` checks before it reads. -/
def checkProperty (t : NodeStack) : Fallible Unit :=
  match t.stack with
  | [] => fail .invalidArgs
  | node :: _ => reject node.hasChild .invalidArgs

/-- `PROPERTY`. -/
def property (xlen : Xlen) (t : NodeStack) (name value : ByteString) : Fallible NodeStack :=
  match t.stack with
  | [] => fail .invalidArgs
  | node :: outer => do
    let node ← node.record xlen (cellsOf outer) name value
    return ⟨t.rootSeen, node :: outer⟩

/-- `END_NODE`. -/
def endNode (t : NodeStack) : Fallible NodeStack :=
  match t.stack with
  | [] => fail .invalidArgs
  | _ :: outer => .ok ⟨t.rootSeen, outer⟩

end NodeStack

/-- The walk of `validate_structure` on a stack, as far as `END`. -/
@[simps]
def nesting (xlen : Xlen) : Visitor NodeStack NodeStack where
  beginNode _ name t := t.beginNode name
  checkProperty t := t.checkProperty
  property name value t := t.property xlen name value
  endNode _ _ t := t.endNode
  finish _ t := .ok t

namespace ValidationState

/-- The open nodes of an array, the innermost first. -/
def openNodes (nodes : Vector ValidationNode maxFdtDepth) (depth : Nat) : List ValidationNode :=
  (nodes.toList.take depth).reverse

theorem length_openNodes {nodes : Vector ValidationNode maxFdtDepth} {depth : Nat}
    (h : depth ≤ maxFdtDepth) : (openNodes nodes depth).length = depth := by
  simp [openNodes, h]

theorem openNodes_succ (nodes : Vector ValidationNode maxFdtDepth) {depth : Nat}
    (h : depth < maxFdtDepth) :
    openNodes nodes (depth + 1) = nodes.get ⟨depth, h⟩ :: openNodes nodes depth := by
  have hlen : depth < nodes.toList.length := by simpa using h
  rw [openNodes, List.take_succ_eq_append_getElem hlen, List.reverse_append]
  rfl

theorem openNodes_set_of_le (nodes : Vector ValidationNode maxFdtDepth) {depth i : Nat}
    (hi : i < maxFdtDepth) (h : depth ≤ i) (node : ValidationNode) :
    openNodes (nodes.set i node hi) depth = openNodes nodes depth := by
  rw [openNodes, Vector.toList_set, List.take_set_of_le h, openNodes]

theorem openNodes_set_last (nodes : Vector ValidationNode maxFdtDepth) {depth : Nat}
    (h : depth < maxFdtDepth) (node : ValidationNode) :
    openNodes (nodes.set depth node h) (depth + 1) = node :: openNodes nodes depth := by
  rw [openNodes_succ _ h, openNodes_set_of_le _ h le_rfl]
  congr 1
  exact Vector.getElem_set_self h

/-- The stack of a state of the walk. -/
def toStack (s : ValidationState) : NodeStack := ⟨s.rootSeen, openNodes s.nodes s.depth⟩

/-- The state has the stack, and its depth is one of the array. -/
def Has (s : ValidationState) (t : NodeStack) : Prop := t = s.toStack ∧ s.depth ≤ maxFdtDepth

theorem has_intro {depth : Nat} {rootSeen : Bool} {nodes : Vector ValidationNode maxFdtDepth}
    {stack : List ValidationNode} (hdepth : depth ≤ maxFdtDepth)
    (hstack : openNodes nodes depth = stack) : Has ⟨depth, rootSeen, nodes⟩ ⟨rootSeen, stack⟩ :=
  ⟨by rw [toStack, hstack], hdepth⟩

theorem nodeAt_eq_ok (s : ValidationState) {i : Nat} (h : i < maxFdtDepth) :
    s.nodeAt i = .ok (s.nodes.get ⟨i, h⟩) :=
  dif_pos h

theorem setNode_eq_ok (s : ValidationState) {i : Nat} (h : i < maxFdtDepth)
    (node : ValidationNode) : s.setNode i node = .ok { s with nodes := s.nodes.set i node h } :=
  dif_pos h

theorem indexBack_eq_ok (s : ValidationState) {back : Nat} (h : back ≤ s.depth) :
    s.indexBack back = .ok (s.depth - back) :=
  if_pos h

theorem beginNode_agree {s : ValidationState} {t : NodeStack} (h : s.Has t) (name : ByteString) :
    Agree Has (s.beginNode name) (t.beginNode name) := by
  obtain ⟨depth, rootSeen, nodes⟩ := s
  obtain ⟨rfl, hdepth⟩ := h
  cases depth with
  | zero =>
    have hstack : (toStack ⟨0, rootSeen, nodes⟩).stack = [] := rfl
    simp only [beginNode, enter, ↓reduceIte, bind_assoc, NodeStack.beginNode, hstack]
    refine (Agree.refl (R := Eq) (fun _ => rfl) _).bind fun _ _ _ => ?_
    have hzero : 0 < maxFdtDepth := by decide
    exact has_intro hzero (openNodes_set_last nodes hzero .new)
  | succ depth =>
    have hlt : depth < maxFdtDepth := hdepth
    have hstack : (toStack ⟨depth + 1, rootSeen, nodes⟩).stack =
        nodes.get ⟨depth, hlt⟩ :: openNodes nodes depth := openNodes_succ nodes hlt
    have hback : indexBack ⟨depth + 1, rootSeen, nodes⟩ 1 = .ok depth :=
      indexBack_eq_ok _ (Nat.le_add_left 1 depth)
    simp only [beginNode, enter, Nat.succ_ne_zero, ↓reduceIte, hback,
      nodeAt_eq_ok _ hlt, setNode_eq_ok _ hlt, ok_bind, NodeStack.beginNode, hstack,
      length_openNodes hlt.le]
    by_cases hfull : maxFdtDepth ≤ depth + 1
    · simp only [hfull, decide_true]
      trivial
    · have hnext : depth + 1 < maxFdtDepth := Nat.lt_of_not_le hfull
      simp only [hfull, decide_false, setNode_eq_ok _ hnext]
      refine has_intro hnext ?_
      rw [openNodes_set_last _ hnext, openNodes_set_last _ hlt]

theorem property_agree (xlen : Xlen) {s : ValidationState} {t : NodeStack} (h : s.Has t)
    (name value : ByteString) :
    Agree Has (do s.checkProperty; s.property xlen name value)
      (do t.checkProperty; t.property xlen name value) := by
  obtain ⟨depth, rootSeen, nodes⟩ := s
  obtain ⟨rfl, hdepth⟩ := h
  cases depth with
  | zero => trivial
  | succ depth =>
    have hlt : depth < maxFdtDepth := hdepth
    have hstack : (toStack ⟨depth + 1, rootSeen, nodes⟩).stack =
        nodes.get ⟨depth, hlt⟩ :: openNodes nodes depth := openNodes_succ nodes hlt
    have hcells : parentCells ⟨depth + 1, rootSeen, nodes⟩ =
        .ok (NodeStack.cellsOf (openNodes nodes depth)) := by
      cases depth with
      | zero => rfl
      | succ depth =>
        have hparent : depth < maxFdtDepth := Nat.lt_of_succ_lt hlt
        rw [openNodes_succ _ hparent]
        have hback : indexBack ⟨depth + 1 + 1, rootSeen, nodes⟩ 2 = .ok depth :=
          indexBack_eq_ok _ (Nat.le_add_left 2 depth)
        simp only [parentCells, show depth + 1 + 1 ≠ 1 by omega, ↓reduceIte, hback,
          nodeAt_eq_ok _ hparent, ok_bind]
        rfl
    have hback : indexBack ⟨depth + 1, rootSeen, nodes⟩ 1 = .ok depth :=
      indexBack_eq_ok _ (Nat.le_add_left 1 depth)
    have hopen : (depth + 1 == 0) = false := rfl
    simp only [checkProperty, property, NodeStack.checkProperty, NodeStack.property, hstack, hcells,
      hopen, reject_false, hback, nodeAt_eq_ok _ hlt, ok_bind]
    refine (Agree.refl (R := Eq) (fun _ => rfl) _).bind fun _ _ _ => ?_
    refine (Agree.refl (R := Eq) (fun _ => rfl) _).bind fun node _ hnode => ?_
    subst hnode
    rw [setNode_eq_ok _ hlt]
    exact has_intro hdepth (openNodes_set_last nodes hlt node)

theorem endNode_agree {s : ValidationState} {t : NodeStack} (h : s.Has t) :
    Agree Has s.endNode t.endNode := by
  obtain ⟨depth, rootSeen, nodes⟩ := s
  obtain ⟨rfl, hdepth⟩ := h
  cases depth with
  | zero => trivial
  | succ depth =>
    have hlt : depth < maxFdtDepth := hdepth
    have hstack : (toStack ⟨depth + 1, rootSeen, nodes⟩).stack =
        nodes.get ⟨depth, hlt⟩ :: openNodes nodes depth := openNodes_succ nodes hlt
    simp only [endNode, Nat.succ_ne_zero, ↓reduceIte, NodeStack.endNode, hstack]
    exact has_intro hlt.le rfl

/-- The walk of the validator and the walk on a stack agree on tokens. -/
theorem visit_agree (xlen : Xlen) (structureBlock : ByteString) (lexemes : List Lexeme)
    {offset : Nat} {s : ValidationState} {t : NodeStack} (h : s.Has t) :
    Agree Has ((validator xlen structureBlock).visit lexemes offset s)
      ((nesting xlen).visit lexemes offset t) := by
  refine Visitor.visit_agree (fun offset stop token s t h => ?_) lexemes h
  cases token with
  | beginNode name => exact beginNode_agree h name
  | property name value => exact property_agree xlen h name value
  | endNode => exact endNode_agree h
  | nop => exact h

end ValidationState

/-! ## The content of a node -/

/-- The checks of the content of a node that `depth` nodes enclose, itself included:
what the validator knows of the node after it. -/
def Content.check (xlen : Xlen) :
    (depth : Nat) → (parentCells : CellCounts) → ValidationNode → Content → Fallible ValidationNode
  | _, _, known, .nil => .ok known
  | depth, parentCells, known, .nop rest => rest.check xlen depth parentCells known
  | depth, parentCells, known, .property _ name value rest => do
    reject known.hasChild .invalidArgs
    let known ← known.record xlen parentCells name value
    rest.check xlen depth parentCells known
  | depth, parentCells, known, .node _ _ inner rest => do
    reject (maxFdtDepth ≤ depth) .invalidArgs
    let _ ← inner.check xlen (depth + 1) known.cells .new
    rest.check xlen depth parentCells { known with hasChild := true }

theorem Content.check_append {xlen : Xlen} {depth : Nat} {parentCells : CellCounts}
    (a b : Content) (known : ValidationNode) :
    (a ++ b).check xlen depth parentCells known = (do
      let known ← a.check xlen depth parentCells known
      b.check xlen depth parentCells known) := by
  induction a generalizing known with
  | nil => rfl
  | nop rest ih => exact ih known
  | property raw name value rest ih => simp only [property_append, check, bind_assoc, ih]
  | node raw name inner rest _ ih => simp only [node_append, check, bind_assoc, ih]

theorem Content.check_nops {xlen : Xlen} {depth : Nat} {parentCells : CellCounts} (n : Nat)
    (rest : Content) (known : ValidationNode) :
    (nops n rest).check xlen depth parentCells known =
      rest.check xlen depth parentCells known := by
  induction n with
  | zero => rfl
  | succ n ih => exact ih

/-- Inside a node the walk leaves the nodes around it alone. -/
theorem visitContent_nesting {xlen : Xlen} (c : Content) (offset : Nat) (rootSeen : Bool)
    (node : ValidationNode) (outer : List ValidationNode) :
    (nesting xlen).visitContent c offset ⟨rootSeen, node :: outer⟩ = do
      let node ← c.check xlen (outer.length + 1) (NodeStack.cellsOf outer) node
      return ⟨rootSeen, node :: outer⟩ := by
  induction c generalizing offset node outer with
  | nil => rfl
  | nop rest ih =>
    rw [Visitor.visitContent_nop, ih]
    rfl
  | property raw name value rest ih =>
    simp only [Visitor.visitContent_property, nesting_checkProperty, NodeStack.checkProperty,
      nesting_property, NodeStack.property, Content.check, bind_assoc, pure_bind, ih]
  | node raw name inner rest ihInner ihRest =>
    simp only [Visitor.visitContent_node, nesting_beginNode, NodeStack.beginNode, Content.check,
      bind_assoc, pure_bind, ihInner, nesting_endNode, NodeStack.endNode, ok_bind, ihRest,
      List.length_cons]
    rfl

/-! ## One root -/

namespace NodeStack

theorem length_of_beginNode {t t' : NodeStack} {name : ByteString} (h : t.beginNode name = .ok t') :
    t'.stack.length = t.stack.length + 1 := by
  obtain ⟨rootSeen, stack⟩ := t
  cases stack with
  | nil =>
    simp only [beginNode, bind_eq_ok_iff, pure_eq_ok_iff] at h
    obtain ⟨-, -, rfl⟩ := h
    rfl
  | cons parent outer =>
    simp only [beginNode, bind_eq_ok_iff, pure_eq_ok_iff] at h
    obtain ⟨-, -, rfl⟩ := h
    rfl

theorem length_of_property {xlen : Xlen} {t t' : NodeStack} {name value : ByteString}
    (h : (do t.checkProperty; t.property xlen name value) = .ok t') :
    t'.stack.length = t.stack.length := by
  obtain ⟨rootSeen, stack⟩ := t
  cases stack with
  | nil => cases h
  | cons node outer =>
    simp only [property, bind_eq_ok_iff, pure_eq_ok_iff] at h
    obtain ⟨-, -, node, -, rfl⟩ := h
    rfl

theorem length_of_endNode {t t' : NodeStack} (h : t.endNode = .ok t') :
    t'.stack.length + 1 = t.stack.length := by
  obtain ⟨rootSeen, stack⟩ := t
  cases stack with
  | nil => cases h
  | cons node outer =>
    cases h
    rfl

end NodeStack

/-- A walk that ends with no open node has read content that the open nodes enclose. -/
theorem content_of_visit {xlen : Xlen} {strings : ByteString} {lexemes : List Lexeme}
    (hspelled : Spelled strings lexemes) {offset : Nat} {t t' : NodeStack}
    (h : (nesting xlen).visit lexemes offset t = .ok t') (hclosed : t'.stack = []) :
    ∃ (c : Content) (outer : List Content), outer.length = t.stack.length ∧
      lexemes = c.lexemes ++ outer.flatMap fun c => Content.endLexeme :: c.lexemes := by
  induction lexemes generalizing offset t with
  | nil =>
    cases h
    exact ⟨.nil, [], by rw [hclosed]; rfl, rfl⟩
  | cons lexeme rest ih =>
    obtain ⟨raw, token⟩ := lexeme
    obtain ⟨hspells, hspelled⟩ := List.forall_mem_cons.mp hspelled
    simp only [Visitor.visit, bind_eq_ok_iff] at h
    obtain ⟨s, htoken, hrest⟩ := h
    obtain ⟨c, outer, hlen, rfl⟩ := ih hspelled hrest
    cases token with
    | beginNode name =>
      have hdeeper : s.stack.length = t.stack.length + 1 := NodeStack.length_of_beginNode htoken
      cases outer with
      | nil => simp [hdeeper] at hlen
      | cons after outer =>
        refine ⟨.node raw name c after, outer, ?_, by simp [Content.lexemes]⟩
        rw [List.length_cons] at hlen
        omega
    | property name value =>
      have hsame : s.stack.length = t.stack.length := NodeStack.length_of_property htoken
      exact ⟨.property raw name value c, outer, hsame ▸ hlen, rfl⟩
    | endNode =>
      have hshallower : s.stack.length + 1 = t.stack.length := NodeStack.length_of_endNode htoken
      cases hspells
      exact ⟨.nil, c :: outer, by rw [List.length_cons, hlen, hshallower], rfl⟩
    | nop =>
      cases htoken
      cases hspells
      exact ⟨.nop c, outer, hlen, rfl⟩

/-- Content between nodes that the walk accepts after the root is all `NOP`. -/
theorem nops_of_visit {xlen : Xlen} {c : Content} {offset : Nat} {t : NodeStack}
    (h : (nesting xlen).visitContent c offset ⟨true, []⟩ = .ok t) : ∃ n, c = .nops n .nil := by
  induction c generalizing offset with
  | nil => exact ⟨0, rfl⟩
  | nop rest ih =>
    rw [Visitor.visitContent_nop] at h
    obtain ⟨n, rfl⟩ := ih h
    exact ⟨n + 1, rfl⟩
  | property raw name value rest ih =>
    rw [Visitor.visitContent_property] at h
    cases h
  | node raw name inner rest _ _ =>
    rw [Visitor.visitContent_node] at h
    cases h

/-- A structure block: one root between `NOP`s, `END`, and what follows it. -/
structure Root where
  lead : Nat
  raw : ByteString
  inner : Content
  lag : Nat
  trailing : ByteString

namespace Root

/-- The tokens before `END`. -/
def content (root : Root) : Content :=
  .nops root.lead (.node root.raw [] root.inner (.nops root.lag .nil))

/-- The bytes of the block. -/
def block (root : Root) : ByteString :=
  root.content.bytes ++ (beBytes 4 endWord ++ root.trailing)

/-- The tokens are spelled, and every node passes its checks. -/
structure Valid (xlen : Xlen) (strings : ByteString) (root : Root) : Prop where
  begins : Spells strings root.raw (.beginNode [])
  spelled : root.inner.Spelled strings
  checked : ∃ known,
    root.inner.check xlen 1 ⟨defaultAddressCells, defaultSizeCells⟩ .new = .ok known
  trailing : onlyNops root.trailing = true

theorem Valid.content_spelled {xlen : Xlen} {strings : ByteString} {root : Root}
    (h : root.Valid xlen strings) : root.content.Spelled strings := by
  rw [content, Content.spelled_nops, Content.spelled_node, Content.spelled_nops]
  exact ⟨h.begins, h.spelled, Content.spelled_nil⟩

theorem four_dvd_of_onlyNops {bytes : ByteString} (h : onlyNops bytes = true) : 4 ∣ bytes.length := by
  fun_induction onlyNops bytes with
  | case1 => simp
  | case2 a b c d rest ih =>
    have hrest := ih (Bool.and_eq_true_iff.mp h).2
    simp only [List.length_cons]
    omega
  | case3 => cases h

theorem Valid.four_dvd {xlen : Xlen} {strings : ByteString} {root : Root}
    (h : root.Valid xlen strings) : 4 ∣ root.block.length := by
  have hcontent := h.content_spelled.four_dvd
  have htrailing := four_dvd_of_onlyNops h.trailing
  simp only [block, List.length_append, length_beBytes]
  omega

theorem checkTrailing_block (root : Root) :
    checkTrailing root.block (root.content.bytes.length + 4) =
      reject (!onlyNops root.trailing) .invalidArgs := by
  have hblock : root.block = root.content.bytes ++ beBytes 4 endWord ++ root.trailing :=
    (List.append_assoc _ _ _).symm
  have hlen : (root.content.bytes ++ beBytes 4 endWord).length = root.content.bytes.length + 4 := by
    rw [List.length_append, length_beBytes]
  have hindex : indexFrom root.block (root.content.bytes.length + 4) = .ok root.trailing := by
    rw [indexFrom_eq_ok_iff, hblock, ← hlen, List.drop_left]
    exact ⟨by simp, rfl⟩
  rw [checkTrailing, hindex, ok_bind]

end Root

/-- Every walk over a block visits its content and finishes. -/
theorem Visitor.walk_block {σ ρ : Type} {xlen : Xlen} {strings : ByteString}
    (visitor : Visitor σ ρ) {root : Root} (hroom : root.block.length < xlen.words)
    (hspelled : root.content.Spelled strings) (s : σ) :
    visitor.walk xlen root.block strings 0 s =
      visitor.visitContent root.content 0 s >>=
        visitor.finish (root.content.bytes.length + 4) := by
  have hstands : StandsAt root.block 0 (rawBytes root.content.lexemes ++ beBytes 4 endWord) :=
    ⟨[], root.trailing, by simp [Root.block, Content.bytes], rfl⟩
  rw [visitor.walk_eq hroom hspelled hstands, Nat.zero_add]
  rfl

/-- Content that the walk accepts as a whole is one root. -/
theorem root_of_visit {xlen : Xlen} {c : Content} {offset : Nat} {t : NodeStack}
    (h : (nesting xlen).visitContent c offset ⟨false, []⟩ = .ok t) (hroot : t.rootSeen = true) :
    ∃ (lead lag : Nat) (raw : ByteString) (inner : Content) (known : ValidationNode),
      c = .nops lead (.node raw [] inner (.nops lag .nil)) ∧
        inner.check xlen 1 ⟨defaultAddressCells, defaultSizeCells⟩ .new = .ok known := by
  induction c generalizing offset with
  | nil =>
    cases h
    cases hroot
  | nop rest ih =>
    rw [Visitor.visitContent_nop] at h
    obtain ⟨lead, lag, raw, inner, known, rfl, hcheck⟩ := ih h
    exact ⟨lead + 1, lag, raw, inner, known, rfl, hcheck⟩
  | property raw name value rest ih =>
    rw [Visitor.visitContent_property] at h
    cases h
  | node raw name inner rest _ _ =>
    simp only [Visitor.visitContent_node, nesting_beginNode, NodeStack.beginNode, bind_eq_ok_iff,
      reject_eq_ok_iff, Bool.false_or, pure_eq_ok_iff] at h
    obtain ⟨_, ⟨-, hname, rfl⟩, s, hinner, s', hend, hrest⟩ := h
    rw [visitContent_nesting, bind_eq_ok_iff] at hinner
    obtain ⟨known, hcheck, hinner⟩ := hinner
    cases hinner
    obtain rfl : name = [] := by simpa using hname
    cases hend
    obtain ⟨lag, rfl⟩ := nops_of_visit hrest
    exact ⟨0, lag, raw, inner, known, rfl, hcheck⟩

theorem visit_root {xlen : Xlen} {strings : ByteString} {root : Root}
    (h : root.Valid xlen strings) :
    (nesting xlen).visitContent root.content 0 ⟨false, []⟩ = .ok ⟨true, []⟩ := by
  obtain ⟨known, hcheck⟩ := h.checked
  have hbegin : NodeStack.beginNode ⟨false, []⟩ [] = .ok ⟨true, [.new]⟩ := rfl
  have hinner : ∀ offset, (nesting xlen).visitContent root.inner offset ⟨true, [.new]⟩ =
      .ok ⟨true, [known]⟩ := by
    intro offset
    rw [visitContent_nesting]
    exact bind_eq_ok_iff.mpr ⟨known, hcheck, rfl⟩
  rw [Root.content, Visitor.visitContent_nops, Visitor.visitContent_node, nesting_beginNode, hbegin,
    ok_bind, hinner, ok_bind]
  exact Visitor.visitContent_nops root.lag .nil _ _

/-- A structure block validates when it is one root whose nodes pass their checks. -/
theorem validateStructure_iff {xlen : Xlen} {block strings : ByteString}
    (hroom : block.length < xlen.words) :
    validateStructure xlen block strings = .ok () ↔
      ∃ root : Root, root.block = block ∧ root.Valid xlen strings := by
  have hinitial : ValidationState.initial.Has ⟨false, []⟩ :=
    ValidationState.has_intro (Nat.zero_le _) rfl
  constructor
  · intro h
    obtain ⟨lexemes, hspelled, hstands⟩ := Visitor.tokens_of_walk h
    rw [validateStructure, Visitor.walk_eq hroom hspelled hstands, bind_eq_ok_iff] at h
    obtain ⟨s, hvisit, hfinish⟩ := h
    obtain ⟨t, hstack, rfl, -⟩ :=
      (ValidationState.visit_agree xlen block lexemes hinitial).exists_right hvisit
    have hfinish : s.finish block (0 + (rawBytes lexemes).length + 4) = .ok () := hfinish
    simp only [ValidationState.finish, bind_eq_ok_iff, reject_eq_ok_iff, Bool.or_eq_false_iff,
      Bool.not_eq_eq_eq_not, Bool.not_false, bne_eq_false_iff_eq, Nat.zero_add] at hfinish
    obtain ⟨-, ⟨hroot, hdepth⟩, htrailing⟩ := hfinish
    have hclosed : s.toStack.stack = [] := by
      rw [ValidationState.toStack, hdepth]
      rfl
    obtain ⟨c, outer, hlen, rfl⟩ := content_of_visit hspelled hstack hclosed
    obtain rfl := List.length_eq_zero_iff.mp hlen
    rw [List.flatMap_nil, List.append_nil] at hspelled hstands hstack htrailing
    obtain ⟨lead, lag, raw, inner, known, rfl, hcheck⟩ := root_of_visit hstack hroot
    obtain ⟨before, trailing, rfl, hbefore⟩ := hstands
    obtain rfl := List.length_eq_zero_iff.mp hbefore
    let root : Root := ⟨lead, raw, inner, lag, trailing⟩
    have hblock : root.block = [] ++ (rawBytes root.content.lexemes ++ beBytes 4 endWord) ++ trailing :=
      (List.append_assoc _ _ _).symm
    refine ⟨root, hblock, ?_⟩
    have htail : checkTrailing root.block (root.content.bytes.length + 4) = .ok () := by
      rw [hblock]
      exact htrailing
    rw [root.checkTrailing_block] at htail
    obtain ⟨hbegins, hinner, -⟩ :=
      Content.spelled_node.mp (Content.spelled_nops.mp hspelled)
    exact ⟨hbegins, hinner, ⟨known, hcheck⟩, by simpa using htail⟩
  · rintro ⟨root, rfl, hvalid⟩
    rw [validateStructure, Visitor.walk_block _ hroom hvalid.content_spelled, bind_eq_ok_iff]
    obtain ⟨s, hvisit, hstack, hdepth⟩ :=
      (ValidationState.visit_agree xlen root.block root.content.lexemes hinitial).exists_left
        (visit_root hvalid)
    refine ⟨s, hvisit, ?_⟩
    have hroot : s.rootSeen = true := congrArg NodeStack.rootSeen hstack.symm
    have hclosed : s.depth = 0 := by
      rw [← ValidationState.length_openNodes hdepth]
      exact congrArg (fun t => t.stack.length) hstack.symm
    show s.finish root.block (root.content.bytes.length + 4) = .ok ()
    simp [ValidationState.finish, hroot, hclosed, root.checkTrailing_block, hvalid.trailing]

end RustSbi.DeviceTree
