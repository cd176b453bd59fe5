import RustSbi.DeviceTree.TreeEdit

/-!
Hiding in several passes. A pass leaves `NOP`s where the hidden nodes stood and every
other offset as it was, so a second pass finds the same paths around them: two passes
are one pass with both lists.
-/

namespace RustSbi.DeviceTree

open Bytes

/-! ## Hiding twice -/

namespace Content

theorem hide_nops (hidden : List ByteString) (path : ByteString) (n : Nat) (rest : Content) :
    (nops n rest).hide hidden path = nops n (rest.hide hidden path) := by
  induction n with
  | zero => rfl
  | succ n ih => exact congrArg nop ih

theorem Spelled.hide_hide {strings : ByteString} {c : Content} (h : c.Spelled strings)
    (first second : List ByteString) (path : ByteString) :
    (c.hide first path).hide second path = c.hide (first ++ second) path := by
  induction c generalizing path with
  | nil => rfl
  | nop rest ih => exact congrArg nop (ih (spelled_nop.mp h) path)
  | property raw name value rest ih =>
    exact congrArg (property raw name value) (ih (spelled_property.mp h).2 path)
  | node raw name inner rest ihInner ihRest =>
    obtain ⟨-, hinner, hrest⟩ := spelled_node.mp h
    have hlength := hinner.length_hide first (EditPlanner.pushName path name false)
    by_cases hfirst : EditPlanner.pushName path name false ∈ first
    · simp only [Content.hide, hfirst, List.mem_append, true_or, ↓reduceIte, hide_nops,
        ihRest hrest path]
    · by_cases hsecond : EditPlanner.pushName path name false ∈ second
      · simp only [Content.hide, hfirst, hsecond, List.mem_append, false_or, ↓reduceIte, hlength,
          ihRest hrest path]
      · simp only [Content.hide, hfirst, hsecond, List.mem_append, or_self, ↓reduceIte,
          ihInner hinner, ihRest hrest path]

theorem hide_congr {first second : List ByteString} (h : ∀ path, path ∈ first ↔ path ∈ second)
    (c : Content) (path : ByteString) : c.hide first path = c.hide second path := by
  induction c generalizing path with
  | nil => rfl
  | nop rest ih => exact congrArg nop (ih path)
  | property raw name value rest ih => exact congrArg (property raw name value) (ih path)
  | node raw name inner rest ihInner ihRest => simp only [Content.hide, h, ihInner, ihRest]

/-! ## A path below another -/

/-- A slash of a path is none of its last name. -/
theorem split_slash {base name x y : ByteString} (hname : 0x2f ∉ name)
    (h : base ++ name = x ++ 0x2f :: y) : ∃ z, base = x ++ 0x2f :: z := by
  rcases List.append_eq_append_iff.mp h with ⟨a, -, hrest⟩ | ⟨a, hbase, hrest⟩
  · exact (hname (hrest ▸ List.mem_append_right _ List.mem_cons_self)).elim
  · cases a with
    | nil =>
      rw [List.nil_append] at hrest
      exact (hname (hrest ▸ List.mem_cons_self)).elim
    | cons first a =>
      obtain ⟨hfirst, -⟩ := List.cons.inj hrest
      exact ⟨a, by rw [hbase, ← hfirst]⟩

theorem above_pushName {path name above below : ByteString} (hname : 0x2f ∉ name)
    (hsplit : EditPlanner.pushName path name false = above ++ 0x2f :: below) (habove : above ≠ []) :
    above = path ∨ ∃ z, path = above ++ 0x2f :: z := by
  have hpos := List.length_pos_iff.mpr habove
  rw [EditPlanner.pushName, if_neg Bool.false_ne_true] at hsplit
  obtain ⟨z, hz⟩ := split_slash hname hsplit
  split at hz
  · rcases List.eq_nil_or_concat' z with rfl | ⟨front, last, rfl⟩
    · exact .inl (List.append_inj_left' hz rfl).symm
    · refine .inr ⟨front, ?_⟩
      have hassoc : above ++ 0x2f :: (front ++ [last]) = (above ++ 0x2f :: front) ++ [last] := by simp
      rw [hassoc] at hz
      exact List.append_inj_left' hz rfl
  · next hshort =>
    refine (hshort ?_).elim
    rw [hz, List.length_append, List.length_cons]
    omega

/-- Neither the path nor one above it is hidden. -/
def Visible (hidden : List ByteString) (path : ByteString) : Prop :=
  path ∉ hidden ∧ ∀ above below, path = above ++ 0x2f :: below → above ≠ [] → above ∉ hidden

theorem Visible.pushName {hidden : List ByteString} {path name : ByteString}
    (h : Visible hidden path) (hname : 0x2f ∉ name)
    (hvisible : EditPlanner.pushName path name false ∉ hidden) :
    Visible hidden (EditPlanner.pushName path name false) := by
  refine ⟨hvisible, fun above below hsplit habove => ?_⟩
  rcases above_pushName hname hsplit habove with rfl | ⟨z, hz⟩
  · exact h.1
  · exact h.2 above z hz habove

/-- Below a hidden path there is nothing left to hide. -/
theorem hide_below {hidden : List ByteString} {above below : ByteString} (habove : above ≠ [])
    (hmem : above ∈ hidden) (c : Content) {names : List ByteString} {path : ByteString}
    (hslash : ∀ p ∈ descendantsAll names c.children, 0x2f ∉ p.2.name)
    (hvisible : Visible hidden path) :
    c.hide ((above ++ 0x2f :: below) :: hidden) path = c.hide hidden path := by
  induction c generalizing names path with
  | nil => rfl
  | nop rest ih => exact congrArg nop (ih hslash hvisible)
  | property raw name value rest ih => exact congrArg (property raw name value) (ih hslash hvisible)
  | node raw name inner rest ihInner ihRest =>
    simp only [children, descendantsAll, Node.descendants, Node.name_mk, List.forall_mem_cons,
      List.forall_mem_append] at hslash
    obtain ⟨hname, hinner, hrest⟩ := hslash
    have hother : EditPlanner.pushName path name false ≠ above ++ 0x2f :: below := by
      intro hsplit
      rcases above_pushName hname hsplit habove with rfl | ⟨z, hz⟩
      · exact hvisible.1 hmem
      · exact hvisible.2 above z hz habove hmem
    by_cases hinside : EditPlanner.pushName path name false ∈ hidden
    · simp only [hide, List.mem_cons, hother, hinside, or_true, ↓reduceIte, ihRest hrest hvisible]
    · have hdown := ihInner hinner (hvisible.pushName hname hinside)
      simp only [hide, List.mem_cons, hother, hinside, or_self, ↓reduceIte, hdown,
        ihRest hrest hvisible]

end Content

/-! ## Two passes -/

section Passes

variable {xlen : Xlen} {source : ByteString} {layout : Layout} {root : Root}

theorem Content.names_hide_sublist (c : Content) (hidden : List ByteString) (path : ByteString) :
    ((c.hide hidden path).children.map Node.name).Sublist (c.children.map Node.name) := by
  induction c with
  | nil => exact .slnil
  | nop rest ih => exact ih
  | property raw name value rest ih => exact ih
  | node raw name inner rest _ ih =>
    rw [hide]
    split
    · rw [children_nops]
      exact ih.cons name
    · exact ih.cons_cons name

/-- Hiding takes reserved-memory nodes away and adds none. -/
theorem Root.twice_hide (htwice : root.twice = false) (hidden : List ByteString) :
    (root.hide hidden).twice = false := by
  have hcount : ∀ children : List Node, (children.filter Node.isReservedMemory).length =
      (children.map Node.name).countP EditPlanner.isReservedMemoryName := by
    intro children
    rw [List.countP_map, List.countP_eq_length_filter]
    rfl
  have hsublist := root.inner.names_hide_sublist hidden (ascii "/")
  have hle := hsublist.countP_le (p := EditPlanner.isReservedMemoryName)
  rw [← hcount, ← hcount] at hle
  have hfew : ¬ 1 < (root.inner.reserved root.innerOffset).length := by
    simpa [Root.twice] using htwice
  rw [Root.twice, decide_eq_false_iff_not, Root.length_reserved]
  rw [root.length_reserved] at hfew
  exact fun htwo => hfew (htwo.trans_le hle)

theorem Accepted.replaced_replaced (h : Accepted xlen source layout root)
    (first second : List ByteString) :
    replaced ⟨replaced layout (root.hide first).block, layout.totalSize, layout.reservations,
        layout.structureOffset, (root.hide first).block, layout.strings⟩ (root.hide second).block =
      replaced layout (root.hide second).block := by
  obtain ⟨_, _, _, hlaid⟩ := h.laidOut
  have hsecond := hlaid.structure_le
  have hthird := hlaid.strings_le
  have htake : (layout.source.take layout.totalSize).length = layout.totalSize :=
    List.length_take_of_le hlaid.total_le
  have hfirst : (root.hide first).block.length = layout.structureBlock.length := by
    rw [Root.length_block_hide h.valid, h.block]
  have hsame : (root.hide first).block.length = (root.hide second).block.length := by
    rw [Root.length_block_hide h.valid, Root.length_block_hide h.valid]
  have hroom : layout.structureOffset + (root.hide first).block.length ≤
      (layout.source.take layout.totalSize).length := by omega
  have hwhole : (replaced layout (root.hide first).block).take layout.totalSize =
      replaced layout (root.hide first).block := by
    refine List.take_of_length_le ?_
    rw [replaced, length_overwrite hroom, htake]
  show overwrite ((replaced layout (root.hide first).block).take layout.totalSize)
    layout.structureOffset (root.hide second).block = _
  rw [hwhole]
  exact overwrite_overwrite hsame hroom

theorem Accepted.prepare_prepare (h : Accepted xlen source layout root)
    (first second : List ByteString) :
    (prepareNextStage xlen source none first >>= fun output =>
      prepareNextStage xlen output none second) =
      prepareNextStage xlen source none (first ++ second) := by
  have hhide : (root.hide first).hide second = root.hide (first ++ second) := by
    simp only [Root.hide, h.valid.spelled.hide_hide]
  have hsecond := (h.hidden first).prepare_none second
  rw [h.prepare_none, h.prepare_none, List.any_append]
  cases hfirst : first.any badPath with
  | true => rfl
  | false =>
    cases htwice : root.twice with
    | true => cases second.any badPath <;> rfl
    | false =>
      simp only [reject_false, ok_bind, pure_bind, Bool.false_or, hsecond,
        Root.twice_hide htwice first, hhide, h.replaced_replaced]

theorem Accepted.prepare_congr (h : Accepted xlen source layout root)
    {first second : List ByteString} (hsame : ∀ path, path ∈ first ↔ path ∈ second) :
    prepareNextStage xlen source none first = prepareNextStage xlen source none second := by
  have hpaths : first.any badPath = second.any badPath := by
    rw [Bool.eq_iff_iff, List.any_eq_true, List.any_eq_true]
    simp only [hsame]
  have hblock : root.hide first = root.hide second := by
    rw [Root.hide, Root.hide, Content.hide_congr hsame]
  rw [h.prepare_none, h.prepare_none, hpaths, hblock]

/-- The names of the nodes below the root have no slash. -/
def Node.SlashFree (root : Node) : Prop := ∀ p ∈ root.descendants [], 0x2f ∉ p.2.name

instance (root : Node) : Decidable root.SlashFree := inferInstanceAs (Decidable (∀ p ∈ _, _))

theorem Accepted.prepare_below (h : Accepted xlen source layout root) (hslash : root.tree.SlashFree)
    {above below : ByteString} {hidden : List ByteString}
    (hbelow : badPath (above ++ 0x2f :: below) = false) :
    prepareNextStage xlen source none ((above ++ 0x2f :: below) :: above :: hidden) =
      prepareNextStage xlen source none (above :: hidden) := by
  rw [h.prepare_none, h.prepare_none, List.any_cons, hbelow, Bool.false_or]
  cases hpaths : (above :: hidden).any badPath with
  | true => rfl
  | false =>
    have habove : above ≠ [] := by
      rintro rfl
      cases hpaths
    have hvisible : Content.Visible (above :: hidden) (ascii "/") := by
      refine ⟨slash_not_mem hpaths, fun x y hsplit hx => ?_⟩
      have hlength := congrArg List.length hsplit
      have hpos := List.length_pos_iff.mpr hx
      have hone : (ascii "/").length = 1 := rfl
      rw [hone, List.length_append, List.length_cons] at hlength
      omega
    have hhide : root.inner.hide ((above ++ 0x2f :: below) :: above :: hidden) (ascii "/") =
        root.inner.hide (above :: hidden) (ascii "/") :=
      Content.hide_below habove List.mem_cons_self root.inner hslash hvisible
    rw [Root.hide, Root.hide, hhide]

/-- Hiding composes: pass by pass, in any order and any number of times; below a hidden
path nothing is left to hide, if no name has a slash. -/
theorem hiding_composes (hvalid : validate xlen source = .ok ()) :
    (∀ first second, (prepareNextStage xlen source none first >>= fun output =>
        prepareNextStage xlen output none second) =
      prepareNextStage xlen source none (first ++ second)) ∧
    (∀ hidden, (prepareNextStage xlen source none hidden >>= fun output =>
        prepareNextStage xlen output none hidden) = prepareNextStage xlen source none hidden) ∧
    (∀ first second, first.Perm second →
      prepareNextStage xlen source none first = prepareNextStage xlen source none second) ∧
    ∃ blob, decode xlen source = .ok blob ∧
      (blob.root.SlashFree → ∀ above below hidden, badPath (above ++ 0x2f :: below) = false →
        prepareNextStage xlen source none ((above ++ 0x2f :: below) :: above :: hidden) =
          prepareNextStage xlen source none (above :: hidden)) := by
  obtain ⟨layout, root, h⟩ := validate_iff_accepted.mp hvalid
  obtain ⟨_, _, _, hlaid⟩ := h.laidOut
  obtain ⟨bootCpu, hword⟩ := hlaid.exists_bootCpu
  refine ⟨h.prepare_prepare, fun hidden => ?_, fun first second hperm => ?_,
    ⟨layout.reservations, bootCpu, root.tree⟩, h.decode_iff.mpr ⟨rfl, hword, rfl⟩,
    fun hslash above below hidden hbelow => h.prepare_below hslash hbelow⟩
  · rw [h.prepare_prepare]
    exact h.prepare_congr fun path => by simp
  · exact h.prepare_congr fun path => hperm.mem_iff

end Passes

/-- Two passes over a blob whose names have no slash. -/
theorem hiding_composes_small :
    (prepareNextStage .rv64 smallBlob none [ascii "/a"] >>= fun output =>
      prepareNextStage .rv64 output none [ascii "/a/b"]) =
      prepareNextStage .rv64 smallBlob none [ascii "/a"] := by
  have hvalid : validate .rv64 smallBlob = .ok () := by decide +kernel
  obtain ⟨hcompose, -, hperm, blob, hblob, hbelow⟩ := hiding_composes hvalid
  have hslash : ((decode .rv64 smallBlob).toOption.all fun blob => decide blob.root.SlashFree) =
      true := by decide +kernel
  rw [hblob, Except.toOption, Option.all_some, decide_eq_true_eq] at hslash
  rw [hcompose, hperm ([ascii "/a"] ++ [ascii "/a/b"]) [ascii "/a/b", ascii "/a"] (.swap _ _ _)]
  exact hbelow hslash (ascii "/a") (ascii "b") [] (by decide +kernel)

/-- A root with a node `a`, a node `b` in it, and a node `a/b`. -/
def slashBlob : ByteString :=
  blobOf [beginNodeWord, 0, beginNodeWord, 0x61000000, beginNodeWord, 0x62000000, endNodeWord,
    endNodeWord, beginNodeWord, 0x612f6200, endNodeWord, endNodeWord, endWord] []

/-- Listing a node with its child hides another node, whose name has a slash. -/
theorem hiding_below_matters :
    validate .rv64 slashBlob = .ok () ∧
      ((decode .rv64 slashBlob).toOption.any fun blob =>
        decide ([ascii "a", ascii "b"] ∈ (blob.root.descendants []).map Prod.fst)) = true ∧
      prepareNextStage .rv64 slashBlob none [ascii "/a", ascii "/a/b"] ≠
        prepareNextStage .rv64 slashBlob none [ascii "/a"] := by
  decide +kernel

end RustSbi.DeviceTree
