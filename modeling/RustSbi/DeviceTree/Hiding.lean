import RustSbi.DeviceTree.Edits

/-!
Hiding nodes. The bytes of a hidden node become `NOP`s, word by word; on the content,
the node turns into `NOP`s of the same length. What is left of a block that validates
still validates, and hiding twice is hiding once.
-/

namespace RustSbi.DeviceTree

open Bytes

/-! ## Hidden content -/

/-- The content with its hidden nodes turned into `NOP`s. -/
def Content.hide (hidden : List ByteString) : (path : ByteString) → Content → Content
  | _, .nil => .nil
  | path, .nop rest => .nop (rest.hide hidden path)
  | path, .property raw name value rest => .property raw name value (rest.hide hidden path)
  | path, .node raw name inner rest =>
    let inside := EditPlanner.pushName path name false
    if inside ∈ hidden then
      .nops ((raw.length + inner.bytes.length + 4) / 4) (rest.hide hidden path)
    else .node raw name (inner.hide hidden inside) (rest.hide hidden path)

namespace Content

theorem Spelled.hide {strings : ByteString} {c : Content} (h : c.Spelled strings)
    (hidden : List ByteString) (path : ByteString) : (c.hide hidden path).Spelled strings := by
  induction c generalizing path with
  | nil => exact h
  | nop rest ih => exact spelled_nop.mpr (ih (spelled_nop.mp h) path)
  | property raw name value rest ih =>
    obtain ⟨hspells, hrest⟩ := spelled_property.mp h
    exact spelled_property.mpr ⟨hspells, ih hrest path⟩
  | node raw name inner rest ihInner ihRest =>
    obtain ⟨hspells, hinner, hrest⟩ := spelled_node.mp h
    rw [Content.hide]
    split
    · exact spelled_nops.mpr (ihRest hrest path)
    · exact spelled_node.mpr ⟨hspells, ihInner hinner _, ihRest hrest path⟩

/-- Hiding keeps every offset outside the hidden nodes. -/
theorem Spelled.length_hide {strings : ByteString} {c : Content} (h : c.Spelled strings)
    (hidden : List ByteString) (path : ByteString) :
    (c.hide hidden path).bytes.length = c.bytes.length := by
  induction c generalizing path with
  | nil => rfl
  | nop rest ih =>
    simp only [Content.hide, bytes_nop, List.length_append, ih (spelled_nop.mp h) path]
  | property raw name value rest ih =>
    simp only [Content.hide, bytes_property, List.length_append, ih (spelled_property.mp h).2 path]
  | node raw name inner rest ihInner ihRest =>
    obtain ⟨hspells, hinner, hrest⟩ := spelled_node.mp h
    have hraw := hspells.four_dvd
    have hin := hinner.four_dvd
    rw [Content.hide]
    split
    · rw [length_bytes_nops, ihRest hrest path]
      simp only [bytes_node, List.length_append, length_beBytes]
      omega
    · simp only [bytes_node, List.length_append, ihInner hinner _, ihRest hrest path]

end Content

/-! ## Overwriting -/

theorem length_nops (n : Nat) : (nops n).length = 4 * n := by
  induction n with
  | zero => rfl
  | succ n ih =>
    rw [nops, List.replicate_succ, List.flatten_cons, List.length_append, length_beBytes]
    rw [nops] at ih
    rw [ih]
    omega

/-- One span that is a part of whole words. -/
theorem nopSpan_eq_ok (before part after : ByteString) (h : 4 ∣ part.length) :
    nopSpan (before ++ part ++ after) (before.length, before.length + part.length) =
      .ok (before ++ nops (part.length / 4) ++ after) := by
  have hlen : (nops (part.length / 4)).length = part.length := by
    rw [length_nops]
    omega
  simp only [nopSpan, slice_append, orFail, ok_bind]
  rw [overwrite_append _ _ _ _ hlen]
  rfl

theorem nopNodes_append (block : ByteString) (a b : List (Nat × Nat)) :
    nopNodes block (a ++ b) = nopNodes block a >>= fun block => nopNodes block b := by
  rw [nopNodes, List.foldlM_append]
  rfl

/-- The spans of a content turn its bytes into those of the hidden content. -/
theorem nopNodes_spans {strings : ByteString} {c : Content} (h : c.Spelled strings)
    (hidden : List ByteString) (path before after : ByteString) :
    nopNodes (before ++ c.bytes ++ after) (c.spans hidden path before.length) =
      .ok (before ++ (c.hide hidden path).bytes ++ after) := by
  induction c generalizing path before after with
  | nil => rfl
  | nop rest ih =>
    have hrest := ih (Content.spelled_nop.mp h) path (before ++ beBytes 4 nopWord) after
    rw [List.length_append, length_beBytes] at hrest
    simpa [Content.spans, Content.hide] using hrest
  | property raw name value rest ih =>
    have hrest := ih (Content.spelled_property.mp h).2 path (before ++ raw) after
    rw [List.length_append] at hrest
    simpa [Content.spans, Content.hide] using hrest
  | node raw name inner rest ihInner ihRest =>
    obtain ⟨hspells, hinner, hrest⟩ := Content.spelled_node.mp h
    set inside := EditPlanner.pushName path name false with hinside
    have hlength := hinner.length_hide hidden inside
    have hfirst := ihInner hinner inside (before ++ raw) (beBytes 4 endNodeWord ++ (rest.bytes ++ after))
    simp only [List.append_assoc, List.length_append] at hfirst
    simp only [Content.spans, Content.hide, ← hinside, Content.bytes_node, List.append_assoc,
      nopNodes_append, hfirst, ok_bind]
    by_cases hhidden : inside ∈ hidden
    · -- The node is overwritten as a whole, its hidden descendants with it.
      have hfour : 4 ∣ (raw ++ ((inner.hide hidden inside).bytes ++ beBytes 4 endNodeWord)).length := by
        have hraw := hspells.four_dvd
        have hin := hinner.four_dvd
        simp only [List.length_append, length_beBytes, hlength]
        omega
      have hspan := nopSpan_eq_ok before
        (raw ++ ((inner.hide hidden inside).bytes ++ beBytes 4 endNodeWord)) (rest.bytes ++ after) hfour
      simp only [List.length_append, length_beBytes, hlength, List.append_assoc,
        ← Nat.add_assoc] at hspan
      have hsecond := ihRest hrest path
        (before ++ nops ((raw.length + inner.bytes.length + 4) / 4)) after
      have hnops : 4 * ((raw.length + inner.bytes.length + 4) / 4) =
          raw.length + inner.bytes.length + 4 := by
        simp only [List.length_append, length_beBytes, hlength] at hfour
        omega
      simp only [List.append_assoc, List.length_append, length_nops, hnops,
        ← Nat.add_assoc] at hsecond
      simp only [hhidden, ↓reduceIte, nopNodes, List.foldlM_cons, List.foldlM_nil, hspan, bind_pure,
        ok_bind, Content.bytes_nops, List.append_assoc]
      exact hsecond
    · have hsecond := ihRest hrest path
        (before ++ (raw ++ ((inner.hide hidden inside).bytes ++ beBytes 4 endNodeWord))) after
      simp only [List.append_assoc, List.length_append, length_beBytes, hlength,
        ← Nat.add_assoc] at hsecond
      simp only [hhidden, ↓reduceIte, Content.bytes_node, List.append_assoc]
      exact hsecond

/-! ## What is left validates -/

/-- The nodes declare the same cells, and the first has no child that the second lacks. -/
structure ValidationNode.Eases (a b : ValidationNode) : Prop where
  addressCells : a.addressCells = b.addressCells
  sizeCells : a.sizeCells = b.sizeCells
  hasChild : a.hasChild = true → b.hasChild = true

namespace ValidationNode

theorem Eases.refl (a : ValidationNode) : a.Eases a := ⟨rfl, rfl, id⟩

theorem Eases.cells {a b : ValidationNode} (h : a.Eases b) : a.cells = b.cells := by
  rw [ValidationNode.cells, ValidationNode.cells, h.addressCells, h.sizeCells]

theorem Eases.record {xlen : Xlen} {a b b' : ValidationNode} (h : a.Eases b)
    {parentCells : CellCounts} {name value : ByteString}
    (hrecord : b.record xlen parentCells name value = .ok b') :
    ∃ a', a.record xlen parentCells name value = .ok a' ∧ a'.Eases b' := by
  unfold ValidationNode.record at hrecord ⊢
  split at hrecord
  · next hname =>
    simp only [bind_eq_ok_iff, reject_eq_ok_iff, pure_eq_ok_iff] at hrecord
    obtain ⟨cell, hcell, -, hnone, rfl⟩ := hrecord
    refine ⟨{ a with addressCells := some cell }, ?_, rfl, h.sizeCells, h.hasChild⟩
    rw [if_pos hname, hcell, h.addressCells, hnone]
    rfl
  split at hrecord
  · next hother hname =>
    simp only [bind_eq_ok_iff, reject_eq_ok_iff, pure_eq_ok_iff] at hrecord
    obtain ⟨cell, hcell, -, hnone, rfl⟩ := hrecord
    refine ⟨{ a with sizeCells := some cell }, ?_, h.addressCells, rfl, h.hasChild⟩
    rw [if_neg hother, if_pos hname, hcell, h.sizeCells, hnone]
    rfl
  split at hrecord
  · next haddress hsize hname =>
    simp only [bind_eq_ok_iff, pure_eq_ok_iff] at hrecord
    obtain ⟨_, hreg, rfl⟩ := hrecord
    refine ⟨a, ?_, h⟩
    rw [if_neg haddress, if_neg hsize, if_pos hname, hreg]
    rfl
  · next haddress hsize hreg =>
    cases hrecord
    refine ⟨a, ?_, h⟩
    rw [if_neg haddress, if_neg hsize, if_neg hreg]
    rfl

end ValidationNode

/-- Hiding nodes leaves a content that passes its checks. -/
theorem Content.check_hide {xlen : Xlen} {c : Content} {depth : Nat} {parentCells : CellCounts}
    {a b b' : ValidationNode} (hab : a.Eases b)
    (h : c.check xlen depth parentCells b = .ok b') (hidden : List ByteString) (path : ByteString) :
    ∃ a', (c.hide hidden path).check xlen depth parentCells a = .ok a' ∧ a'.Eases b' := by
  induction c generalizing depth parentCells a b b' path with
  | nil =>
    cases h
    exact ⟨a, rfl, hab⟩
  | nop rest ih => exact ih hab h path
  | property raw name value rest ih =>
    simp only [check, bind_eq_ok_iff, reject_eq_ok_iff] at h
    obtain ⟨-, hchild, b₁, hrecord, hrest⟩ := h
    obtain ⟨a₁, hrecord', hab'⟩ := hab.record hrecord
    obtain ⟨a', hrest', heases⟩ := ih hab' hrest path
    have hchild' : a.hasChild = false := by
      by_contra htrue
      rw [hab.hasChild (by simpa using htrue)] at hchild
      cases hchild
    refine ⟨a', ?_, heases⟩
    simp only [Content.hide, check, bind_eq_ok_iff, reject_eq_ok_iff]
    exact ⟨(), hchild', a₁, hrecord', hrest'⟩
  | node raw name inner rest ihInner ihRest =>
    simp only [check, bind_eq_ok_iff, reject_eq_ok_iff] at h
    obtain ⟨-, hdepth, c', hinner, hrest⟩ := h
    have hab' : ({ a with hasChild := true } : ValidationNode).Eases { b with hasChild := true } :=
      ⟨hab.addressCells, hab.sizeCells, fun _ => rfl⟩
    have heased : a.Eases { b with hasChild := true } :=
      ⟨hab.addressCells, hab.sizeCells, fun _ => rfl⟩
    rw [Content.hide]
    split
    · rw [check_nops]
      exact ihRest heased hrest path
    · obtain ⟨a₁, hinner', -⟩ := ihInner (.refl .new) hinner (EditPlanner.pushName path name false)
      obtain ⟨a', hrest', heases⟩ := ihRest hab' hrest path
      refine ⟨a', ?_, heases⟩
      simp only [check, bind_eq_ok_iff, reject_eq_ok_iff, hab.cells]
      exact ⟨(), hdepth, a₁, hinner', hrest'⟩

/-- The block with its hidden nodes turned into `NOP`s. -/
def Root.hide (root : Root) (hidden : List ByteString) : Root :=
  { root with inner := root.inner.hide hidden (ascii "/") }

namespace Root

theorem Valid.hide {xlen : Xlen} {strings : ByteString} {root : Root}
    (h : root.Valid xlen strings) (hidden : List ByteString) :
    (root.hide hidden).Valid xlen strings := by
  obtain ⟨known, hcheck⟩ := h.checked
  obtain ⟨known', hcheck', -⟩ := Content.check_hide (.refl .new) hcheck hidden (ascii "/")
  exact ⟨h.begins, h.spelled.hide hidden _, ⟨known', hcheck'⟩, h.trailing⟩

/-- The block around the content of the root. -/
theorem block_eq (root : Root) :
    root.block = (nops root.lead ++ root.raw) ++ root.inner.bytes ++
      (beBytes 4 endNodeWord ++ (nops root.lag ++ (beBytes 4 endWord ++ root.trailing))) := by
  simp [block, content, Content.bytes_nops, nops]

theorem length_before (root : Root) :
    (nops root.lead ++ root.raw).length = root.innerOffset := by
  rw [List.length_append, length_nops, innerOffset]

/-- `nop_nodes` with the spans of the plan. -/
theorem nopNodes_block {xlen : Xlen} {strings : ByteString} {root : Root}
    (h : root.Valid xlen strings) (hidden : List ByteString)
    (reservationName : Option ByteString) :
    nopNodes root.block (root.plan hidden reservationName).hiddenNodes =
      .ok (root.hide hidden).block := by
  have hspans := nopNodes_spans h.spelled hidden (ascii "/") (nops root.lead ++ root.raw)
    (beBytes 4 endNodeWord ++ (nops root.lag ++ (beBytes 4 endWord ++ root.trailing)))
  rw [root.length_before] at hspans
  rw [root.block_eq, (root.hide hidden).block_eq]
  exact hspans

theorem length_block_hide {xlen : Xlen} {strings : ByteString} {root : Root}
    (h : root.Valid xlen strings) (hidden : List ByteString) :
    (root.hide hidden).block.length = root.block.length := by
  have hlength := h.spelled.length_hide hidden (ascii "/")
  simp only [block_eq, hide, List.length_append, hlength]

end Root

end RustSbi.DeviceTree
