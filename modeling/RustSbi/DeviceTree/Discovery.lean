import RustSbi.DeviceTree.TreeEdit

/-!
The paths of device discovery (`prototyper/src/devicetree.rs`). Discovery walks the
decoded tree and joins the names on the way; the planner of the edits grows a string
token by token. The property of a node is looked up by the `fdt` crate, which is a
parameter here.
-/

namespace RustSbi.DeviceTree

open Bytes

/-! ## Discovery -/

/-- `absolute_path`. -/
def absolutePath (segments : List ByteString) : ByteString :=
  let path := segments.foldl (fun path segment =>
    if segment == ascii "/" || segment.isEmpty then path else path ++ ascii "/" ++ segment) []
  if path.isEmpty then ascii "/" else path

/-- `NodeSelection`. -/
structure NodeSelection (T : Type) where
  resource : T
  sourcePath : ByteString

/-- `select_from_node_once`. -/
def selectFromNodeOnce {T : Type} (slot : Option (NodeSelection T)) (resource : T)
    (sourcePath : List ByteString) : Fallible (Option (NodeSelection T)) := do
  reject slot.isSome .invalidArgs
  return some ⟨resource, absolutePath sourcePath⟩

/-- `status_is_enabled`. -/
def statusIsEnabled (status : Option ByteString) : Bool :=
  match status with
  | none => true
  | some status =>
    OpenNode.stripZero status == ascii "ok" || OpenNode.stripZero status == ascii "okay"

section Traversal

variable {σ : Type} (property : Node → ByteString → Option ByteString)
  (visitor : List ByteString → Node → σ → Fallible σ)

/-- `node_is_enabled`. -/
def nodeIsEnabled (node : Node) : Bool := statusIsEnabled (property node (ascii "status"))

mutual

/-- The inner `visit` of `try_for_each_enabled_node`. -/
def Node.visit (path : List ByteString) : Node → σ → Fallible σ
  | .mk name properties children, s =>
    if nodeIsEnabled property (.mk name properties children) then do
      let s ← visitor (path ++ [name]) (.mk name properties children) s
      visitAll (path ++ [name]) children s
    else .ok s

/-- The children of a node, one after another. -/
def visitAll (path : List ByteString) : List Node → σ → Fallible σ
  | [], s => .ok s
  | node :: rest, s => do
    let s ← node.visit path s
    visitAll path rest s

end

/-- `try_for_each_enabled_node`. -/
def tryForEachEnabledNode (root : Node) (s : σ) : Fallible σ := root.visit property visitor [] s

end Traversal

/-- The root as the `fdt` crate shows it. -/
def Node.view (root : Node) : Node := .mk (ascii "/") root.properties root.children

/-- The root, under the name it is shown by, and the nodes below it, each with the names that
lead to it. -/
def Node.nodes (root : Node) : List (List ByteString × Node) := ([], root.view) :: root.descendants []

/-- The discovery of one device: the first node that the driver chooses is selected, and
a second one is an error. -/
def discover {T : Type} (property : Node → ByteString → Option ByteString)
    (choose : Node → Fallible (Option T)) (root : Node) : Fallible (Option (NodeSelection T)) :=
  tryForEachEnabledNode property (fun path node slot => do
    match ← choose node with
    | some resource => selectFromNodeOnce slot resource path
    | none => return slot) root.view none

/-! ## What is visited -/

section Visited

variable {σ : Type} {property : Node → ByteString → Option ByteString}
  {visitor : List ByteString → Node → σ → Fallible σ} {P : σ → Prop}

mutual

/-- What every call of the visitor keeps is kept below a node. -/
theorem visit_keeps (start : List ByteString) :
    ∀ (node : Node) (names : List ByteString),
      (∀ s s', P s → visitor (start ++ names ++ [node.name]) node s = .ok s' → P s') →
      (∀ p ∈ node.descendants (names ++ [node.name]), ∀ s s', P s →
        visitor (start ++ p.1) p.2 s = .ok s' → P s') →
      ∀ s s', P s → node.visit property visitor (start ++ names) s = .ok s' → P s'
  | .mk name properties children, names, hself, hbelow, s, s', hs, h => by
    unfold Node.visit at h
    split at h
    · obtain ⟨s₁, hvisit, hrest⟩ := bind_eq_ok_iff.mp h
      rw [List.append_assoc] at hrest
      exact visitAll_keeps start children (names ++ [name]) hbelow s₁ s' (hself s s₁ hs hvisit) hrest
    · cases h
      exact hs

theorem visitAll_keeps (start : List ByteString) :
    ∀ (children : List Node) (names : List ByteString),
      (∀ p ∈ descendantsAll names children, ∀ s s', P s →
        visitor (start ++ p.1) p.2 s = .ok s' → P s') →
      ∀ s s', P s → visitAll property visitor (start ++ names) children s = .ok s' → P s'
  | [], _, _, s, s', hs, h => by
    cases h
    exact hs
  | node :: rest, names, hall, s, s', hs, h => by
    simp only [descendantsAll, List.forall_mem_cons, List.forall_mem_append] at hall
    obtain ⟨hself, hbelow, hrest⟩ := hall
    obtain ⟨s₁, hvisit, hnext⟩ := bind_eq_ok_iff.mp h
    rw [← List.append_assoc] at hself
    have hs₁ := visit_keeps start node names hself hbelow s s₁ hs hvisit
    exact visitAll_keeps start rest names hrest s₁ s' hs₁ hnext

end

end Visited

theorem selected_of_visitor {T : Type} {choose : Node → Fallible (Option T)}
    {path : List ByteString} {node : Node} {slot slot' : Option (NodeSelection T)}
    (h : (do
      match ← choose node with
      | some resource => selectFromNodeOnce slot resource path
      | none => return slot) = .ok slot') :
    slot' = slot ∨ ∃ resource, choose node = .ok (some resource) ∧
      slot' = some ⟨resource, absolutePath path⟩ := by
  obtain ⟨chosen, hchosen, h⟩ := bind_eq_ok_iff.mp h
  cases chosen with
  | none =>
    cases h
    exact .inl rfl
  | some resource =>
    simp only [selectFromNodeOnce, bind_eq_ok_iff, pure_eq_ok_iff] at h
    obtain ⟨-, -, rfl⟩ := h
    exact .inr ⟨resource, hchosen, rfl⟩

/-- A selected device is the root or a node below it, and its path is that of the names
that lead to it. -/
theorem selected_of_discover {T : Type} {property : Node → ByteString → Option ByteString}
    {choose : Node → Fallible (Option T)} {root : Node} {selection : NodeSelection T}
    (h : discover property choose root = .ok (some selection)) :
    ∃ names node, (names, node) ∈ root.nodes ∧
      choose node = .ok (some selection.resource) ∧
      selection.sourcePath = absolutePath (ascii "/" :: names) := by
  obtain ⟨name, properties, children⟩ := root
  let Known (slot : Option (NodeSelection T)) : Prop := ∀ selection, slot = some selection →
    ∃ names node, (names, node) ∈ ([], Node.view (.mk name properties children)) ::
        descendantsAll [] children ∧
      choose node = .ok (some selection.resource) ∧
      selection.sourcePath = absolutePath (ascii "/" :: names)
  have hkeep : ∀ p ∈ ([], Node.view (.mk name properties children)) :: descendantsAll [] children,
      ∀ slot slot', Known slot → (do
        match ← choose p.2 with
        | some resource => selectFromNodeOnce slot resource ([ascii "/"] ++ p.1)
        | none => return slot) = .ok slot' → Known slot' := by
    intro p hp slot slot' hslot hvisit selection hselection
    rcases selected_of_visitor hvisit with rfl | ⟨resource, hresource, rfl⟩
    · exact hslot selection hselection
    · cases hselection
      exact ⟨p.1, p.2, hp, hresource, rfl⟩
  have hnone : Known none := nofun
  obtain ⟨hself, hbelow⟩ := List.forall_mem_cons.mp hkeep
  rw [discover, tryForEachEnabledNode, Node.view, Node.visit] at h
  split at h
  · obtain ⟨slot, hroot, hrest⟩ := bind_eq_ok_iff.mp h
    have hslot : Known slot := hself none slot hnone hroot
    exact visitAll_keeps [ascii "/"] children [] hbelow slot _ hslot hrest selection rfl
  · cases h

/-! ## Paths and places -/

theorem pathOf_cons (name : ByteString) (names : List ByteString) :
    pathOf (name :: names) = 0x2f :: (name ++ pathOf names) := rfl

theorem takeWhile_pathOf {name : ByteString} (hname : 0x2f ∉ name) (names : List ByteString) :
    (name ++ pathOf names).takeWhile (· != 0x2f) = name := by
  have hall : ∀ byte ∈ name, (byte != 0x2f) = true := by
    rintro byte hmem
    rw [bne_iff_ne]
    rintro rfl
    exact hname hmem
  rw [List.takeWhile_append_of_pos hall]
  cases names with
  | nil => exact List.append_nil name
  | cons other names =>
    rw [pathOf_cons, List.takeWhile_cons_of_neg (by decide), List.append_nil]

/-- Names without a slash can be read off their path. -/
theorem pathOf_inj {a b : List ByteString} (ha : ∀ name ∈ a, 0x2f ∉ name)
    (hb : ∀ name ∈ b, 0x2f ∉ name) (h : pathOf a = pathOf b) : a = b := by
  induction a generalizing b with
  | nil =>
    cases b with
    | nil => rfl
    | cons name b => cases h
  | cons name a ih =>
    cases b with
    | nil => cases h
    | cons other b =>
      obtain ⟨hname, hrest⟩ := List.forall_mem_cons.mp ha
      obtain ⟨hother, hrest'⟩ := List.forall_mem_cons.mp hb
      rw [pathOf_cons, pathOf_cons, List.cons.injEq] at h
      have hsame := congrArg (List.takeWhile (· != 0x2f)) h.2
      rw [takeWhile_pathOf hname, takeWhile_pathOf hother] at hsame
      subst hsame
      exact congrArg (name :: ·) (ih hrest hrest' (List.append_cancel_left h.2))

/-- Discovery and the planner write the same path, if the names have no slash and are
not empty. -/
theorem absolutePath_eq {names : List ByteString} (hnames : ∀ name ∈ names, name ≠ [] ∧ 0x2f ∉ name) :
    absolutePath (ascii "/" :: names) = plannerPath names := by
  have hfold : ∀ (names : List ByteString) (path : ByteString),
      (∀ name ∈ names, name ≠ [] ∧ 0x2f ∉ name) →
      names.foldl (fun path segment =>
        if segment == ascii "/" || segment.isEmpty then path else path ++ ascii "/" ++ segment) path =
        path ++ pathOf names := by
    intro names
    induction names with
    | nil => intro path _; simp [pathOf]
    | cons name names ih =>
      intro path hnames
      obtain ⟨⟨hne, hslash⟩, hrest⟩ := List.forall_mem_cons.mp hnames
      have hsegment : (name == ascii "/" || name.isEmpty) = false := by
        rw [Bool.or_eq_false_iff, beq_eq_false_iff_ne, List.isEmpty_eq_false_iff]
        refine ⟨?_, hne⟩
        rintro rfl
        exact hslash (by decide)
      rw [List.foldl_cons, hsegment, if_neg Bool.false_ne_true, ih _ hrest, pathOf_cons]
      simp only [List.append_assoc]
      rfl
  have hroot : absolutePath (ascii "/" :: names) =
      if (pathOf names).isEmpty then ascii "/" else pathOf names := by
    rw [absolutePath, List.foldl_cons, hfold _ _ hnames]
    rfl
  rw [hroot]
  cases names with
  | nil => rfl
  | cons name names =>
    rw [plannerPath_eq (fun name hmem => (hnames name hmem).1) (by simp), pathOf_cons]
    rfl

/-! ## The nodes below a root -/

section Descendants

variable {G : ByteString → Prop}

mutual

theorem Node.names_of_descendants :
    ∀ (node : Node) (names : List ByteString), (∀ name ∈ names, G name) →
      (∀ p ∈ node.descendants names, G p.2.name) →
      ∀ p ∈ node.descendants names, ∀ name ∈ p.1, G name
  | .mk _ _ children, names, hnames, hall => names_of_descendantsAll children names hnames hall

theorem names_of_descendantsAll :
    ∀ (children : List Node) (names : List ByteString), (∀ name ∈ names, G name) →
      (∀ p ∈ descendantsAll names children, G p.2.name) →
      ∀ p ∈ descendantsAll names children, ∀ name ∈ p.1, G name
  | [], _, _, _ => nofun
  | node :: rest, names, hnames, hall => by
    simp only [descendantsAll, List.forall_mem_cons, List.forall_mem_append] at hall ⊢
    obtain ⟨hself, hbelow, hrest⟩ := hall
    have hinside : ∀ name ∈ names ++ [node.name], G name := by
      intro name hmem
      rcases List.mem_append.mp hmem with hmem | hmem
      · exact hnames name hmem
      · rwa [List.mem_singleton.mp hmem]
    exact ⟨⟨hnames, hself, nofun⟩, Node.names_of_descendants node _ hinside hbelow,
      names_of_descendantsAll rest names hnames hrest⟩

end

mutual

theorem Node.exists_of_mem_descendants :
    ∀ (node : Node) (names : List ByteString), ∀ p ∈ node.descendants names,
      ∃ child ∈ node.children, ∃ rest, p.1 = names ++ child.name :: rest
  | .mk _ _ children, names => exists_of_mem_descendantsAll children names

theorem exists_of_mem_descendantsAll :
    ∀ (children : List Node) (names : List ByteString), ∀ p ∈ descendantsAll names children,
      ∃ child ∈ children, ∃ rest, p.1 = names ++ child.name :: rest
  | [], _ => nofun
  | node :: others, names => by
    simp only [descendantsAll, List.forall_mem_cons, List.forall_mem_append]
    refine ⟨⟨node, List.mem_cons_self, [], rfl⟩, fun p hp => ?_, fun p hp => ?_⟩
    · obtain ⟨child, -, rest, hrest⟩ := Node.exists_of_mem_descendants node _ p hp
      exact ⟨node, List.mem_cons_self, child.name :: rest, by rw [hrest]; simp⟩
    · obtain ⟨child, hchild, rest, hrest⟩ := exists_of_mem_descendantsAll others names p hp
      exact ⟨child, List.mem_cons_of_mem _ hchild, rest, hrest⟩

end

mutual

/-- With distinct names of siblings, the names that lead to a node lead to no other. -/
theorem Node.nodup_descendants :
    ∀ (node : Node) (names : List ByteString), (node.children.map Node.name).Nodup →
      (∀ p ∈ node.descendants names, (p.2.children.map Node.name).Nodup) →
      ((node.descendants names).map Prod.fst).Nodup
  | .mk _ _ children, names, hnodup, hall => nodup_descendantsAll children names hnodup hall

theorem nodup_descendantsAll :
    ∀ (children : List Node) (names : List ByteString), (children.map Node.name).Nodup →
      (∀ p ∈ descendantsAll names children, (p.2.children.map Node.name).Nodup) →
      ((descendantsAll names children).map Prod.fst).Nodup
  | [], _, _, _ => .nil
  | node :: others, names, hnodup, hall => by
    simp only [descendantsAll, List.forall_mem_cons, List.forall_mem_append] at hall
    obtain ⟨hself, hbelow, hrest⟩ := hall
    obtain ⟨hname, hnodup⟩ := List.nodup_cons.mp hnodup
    have hdown := Node.nodup_descendants node (names ++ [node.name]) hself hbelow
    have hnext := nodup_descendantsAll others names hnodup hrest
    -- The names below the node begin with its own, those of the others with another one.
    have hinside : ∀ place ∈ (node.descendants (names ++ [node.name])).map Prod.fst,
        ∃ name rest, place = names ++ node.name :: name :: rest := by
      intro place hplace
      obtain ⟨p, hp, rfl⟩ := List.mem_map.mp hplace
      obtain ⟨child, -, rest, hrest⟩ := Node.exists_of_mem_descendants node _ p hp
      exact ⟨child.name, rest, by rw [hrest]; simp⟩
    have hother : ∀ place ∈ (descendantsAll names others).map Prod.fst, ∀ rest,
        place ≠ names ++ node.name :: rest := by
      rintro place hplace rest rfl
      obtain ⟨p, hp, hfst⟩ := List.mem_map.mp hplace
      obtain ⟨child, hchild, rest', hrest'⟩ := exists_of_mem_descendantsAll others names p hp
      rw [hfst] at hrest'
      have hsame := (List.cons.inj (List.append_cancel_left hrest')).1
      exact hname (hsame ▸ List.mem_map_of_mem hchild)
    rw [descendantsAll, List.map_cons, List.map_append, List.nodup_cons, List.nodup_append]
    refine ⟨fun hmem => ?_, hdown, hnext, fun a ha b hb hab => ?_⟩
    · rcases List.mem_append.mp hmem with hmem | hmem
      · obtain ⟨name, rest, heq⟩ := hinside _ hmem
        have hlength := congrArg List.length heq
        simp at hlength
      · exact hother _ hmem [] rfl
    · obtain ⟨name, rest, heq⟩ := hinside a ha
      exact hother b hb _ (hab ▸ heq)

end

end Descendants

/-! ## Hiding a place -/

mutual

/-- The node without the nodes at the places, each given by the names that lead to it. -/
def Node.without (places : List (List ByteString)) (names : List ByteString) : Node → Node
  | .mk name properties children => .mk name properties (withoutAll places names children)

/-- The same for the children of a node. -/
def withoutAll (places : List (List ByteString)) (names : List ByteString) :
    List Node → List Node
  | [] => []
  | node :: rest =>
    if names ++ [node.name] ∈ places then withoutAll places names rest
    else node.without places (names ++ [node.name]) :: withoutAll places names rest

end

section Places

variable {places : List (List ByteString)}

mutual

theorem Node.prune_eq_without (hplaces : ∀ place ∈ places, ∀ name ∈ place, 0x2f ∉ name) :
    ∀ (node : Node) (names : List ByteString), (∀ name ∈ names, 0x2f ∉ name) →
      (∀ p ∈ node.descendants names, 0x2f ∉ p.2.name) →
      node.prune (places.map pathOf) names = node.without places names
  | .mk name properties children, names, hnames, hall => by
    rw [Node.prune, Node.without, pruneAll_eq_withoutAll hplaces children names hnames hall]

theorem pruneAll_eq_withoutAll (hplaces : ∀ place ∈ places, ∀ name ∈ place, 0x2f ∉ name) :
    ∀ (children : List Node) (names : List ByteString), (∀ name ∈ names, 0x2f ∉ name) →
      (∀ p ∈ descendantsAll names children, 0x2f ∉ p.2.name) →
      pruneAll (places.map pathOf) names children = withoutAll places names children
  | [], _, _, _ => rfl
  | node :: rest, names, hnames, hall => by
    simp only [descendantsAll, List.forall_mem_cons, List.forall_mem_append] at hall
    obtain ⟨hself, hbelow, hrest⟩ := hall
    have hinside : ∀ name ∈ names ++ [node.name], 0x2f ∉ name := by
      intro name hmem
      rcases List.mem_append.mp hmem with hmem | hmem
      · exact hnames name hmem
      · rwa [List.mem_singleton.mp hmem]
    have hmem : pathOf (names ++ [node.name]) ∈ places.map pathOf ↔ names ++ [node.name] ∈ places := by
      rw [List.mem_map]
      constructor
      · rintro ⟨place, hplace, hpath⟩
        rwa [← pathOf_inj (hplaces place hplace) hinside hpath]
      · exact fun hplace => ⟨_, hplace, rfl⟩
    simp only [pruneAll, withoutAll, hmem, Node.prune_eq_without hplaces node _ hinside hbelow,
      pruneAll_eq_withoutAll hplaces rest names hnames hrest]

end

end Places

/-! ## Discovery and the planner -/

/-- Siblings have distinct names. -/
def Node.DistinctSiblings (root : Node) : Prop :=
  (root.children.map Node.name).Nodup ∧
    ∀ p ∈ root.descendants [], (p.2.children.map Node.name).Nodup

instance (root : Node) : Decidable root.DistinctSiblings := inferInstanceAs (Decidable (_ ∧ _))

section Agreement

variable {root : Node}

theorem Node.Plain.names (hplain : root.Plain) :
    ∀ p ∈ root.descendants [], ∀ name ∈ p.1, name ≠ [] ∧ 0x2f ∉ name :=
  Node.names_of_descendants root [] nofun hplain

/-- The planner's path of a node below the root. -/
theorem Node.Plain.plannerPath (hplain : root.Plain) :
    ∀ p ∈ root.descendants [], ∃ name rest, name ≠ [] ∧ p.1 = name :: rest ∧
      DeviceTree.plannerPath p.1 = pathOf p.1 := by
  intro p hp
  have hnames := hplain.names p hp
  obtain ⟨child, -, rest, hrest⟩ := Node.exists_of_mem_descendants root [] p hp
  rw [List.nil_append] at hrest
  rw [hrest] at hnames ⊢
  exact ⟨child.name, rest, (hnames child.name List.mem_cons_self).1, rfl,
    plannerPath_eq (fun name hmem => (hnames name hmem).1) (List.cons_ne_nil _ _)⟩

theorem Node.nodup_plannerPath (hplain : root.Plain) (hdistinct : root.DistinctSiblings) :
    ((root.descendants []).map fun p => plannerPath p.1).Nodup := by
  have hnodup := Node.nodup_descendants root [] hdistinct.1 hdistinct.2
  have hmap : (root.descendants []).map (fun p => plannerPath p.1) =
      ((root.descendants []).map Prod.fst).map plannerPath := by
    rw [List.map_map]
    rfl
  rw [hmap]
  refine hnodup.map_on fun a ha b hb hab => ?_
  obtain ⟨p, hp, rfl⟩ := List.mem_map.mp ha
  obtain ⟨q, hq, rfl⟩ := List.mem_map.mp hb
  obtain ⟨-, -, -, -, hpath⟩ := hplain.plannerPath p hp
  obtain ⟨-, -, -, -, hpath'⟩ := hplain.plannerPath q hq
  rw [hpath, hpath'] at hab
  exact pathOf_inj (fun name hmem => (hplain.names p hp name hmem).2)
    (fun name hmem => (hplain.names q hq name hmem).2) hab

theorem Node.nodup_nodes (hplain : root.Plain) (hdistinct : root.DistinctSiblings) :
    (root.nodes.map fun p => DeviceTree.plannerPath p.1).Nodup := by
  rw [Node.nodes, List.map_cons, List.nodup_cons]
  refine ⟨fun hmem => ?_, Node.nodup_plannerPath hplain hdistinct⟩
  obtain ⟨p, hp, hslash⟩ := List.mem_map.mp hmem
  obtain ⟨name, rest, hname, hp', hpath⟩ := hplain.plannerPath p hp
  have hroot : DeviceTree.plannerPath [] = [0x2f] := rfl
  rw [hpath, hp', pathOf_cons, hroot, List.cons.injEq, List.append_eq_nil_iff] at hslash
  exact hname hslash.2.1

/-- Both write the path of the root and of the nodes below it in the same way. -/
theorem Node.absolutePath_nodes (hplain : root.Plain) :
    ∀ p ∈ root.nodes, absolutePath (ascii "/" :: p.1) = DeviceTree.plannerPath p.1 := by
  intro p hp
  refine absolutePath_eq ?_
  rcases List.mem_cons.mp hp with rfl | hp
  · exact nofun
  · exact hplain.names p hp

/-- Hiding discovered paths takes the discovered nodes out of the tree. -/
theorem Node.prune_discovered (hplain : root.Plain) {places : List (List ByteString)}
    (hplaces : ∀ place ∈ places, place ∈ (root.descendants []).map Prod.fst) :
    root.prune (places.map fun place => absolutePath (ascii "/" :: place)) [] =
      root.without places [] := by
  have hnames : ∀ place ∈ places, ∀ name ∈ place, name ≠ [] ∧ 0x2f ∉ name := by
    intro place hplace
    obtain ⟨p, hp, rfl⟩ := List.mem_map.mp (hplaces place hplace)
    exact hplain.names p hp
  have hpaths : places.map (fun place => absolutePath (ascii "/" :: place)) = places.map pathOf := by
    refine List.map_congr_left fun place hplace => ?_
    rw [absolutePath_eq (hnames place hplace)]
    obtain ⟨p, hp, rfl⟩ := List.mem_map.mp (hplaces place hplace)
    obtain ⟨-, -, -, -, hpath⟩ := hplain.plannerPath p hp
    exact hpath
  rw [hpaths]
  exact Node.prune_eq_without (fun place hplace name hmem => (hnames place hplace name hmem).2) root []
    nofun fun p hp => (hplain p hp).2

end Agreement

/-! ## The bytes of a hidden node -/

/-- The bytes are the tokens of a node, from its `BEGIN_NODE` to its `END_NODE`. -/
def Node.SpelledBy (strings part : ByteString) (node : Node) : Prop :=
  ∃ raw inner, Spells strings raw (.beginNode node.name) ∧ Content.Spelled strings inner ∧
    part = raw ++ (inner.bytes ++ beBytes 4 endNodeWord) ∧
    inner.properties = node.properties ∧ inner.children = node.children

theorem Content.hide_eq_self {hidden : List ByteString} {c : Content} {names : List ByteString}
    (h : ∀ p ∈ descendantsAll names c.children, plannerPath p.1 ∉ hidden) :
    c.hide hidden (plannerPath names) = c := by
  induction c generalizing names with
  | nil => rfl
  | nop rest ih => exact congrArg nop (ih h)
  | property raw name value rest ih => exact congrArg (property raw name value) (ih h)
  | node raw name inner rest ihInner ihRest =>
    simp only [children, descendantsAll, Node.descendants, Node.name_mk, List.forall_mem_cons,
      List.forall_mem_append] at h
    obtain ⟨hself, hinner, hrest⟩ := h
    have hinside := ihInner hinner
    rw [plannerPath_append] at hself hinside
    rw [hide, if_neg hself, hinside, ihRest hrest]

/-- Hiding the path of one node overwrites the bytes of that node, if no other has its path. -/
theorem Content.bytes_hide_node {strings : ByteString} {c : Content} (hspelled : c.Spelled strings)
    {names : List ByteString}
    (hnodup : ((descendantsAll names c.children).map fun p => plannerPath p.1).Nodup)
    {p : List ByteString × Node} (hp : p ∈ descendantsAll names c.children) :
    ∃ before part after, c.bytes = before ++ part ++ after ∧ p.2.SpelledBy strings part ∧
      (c.hide [plannerPath p.1] (plannerPath names)).bytes =
        before ++ DeviceTree.nops (part.length / 4) ++ after := by
  induction c generalizing names with
  | nil => cases hp
  | nop rest ih =>
    obtain ⟨before, part, after, hbytes, hpart, hhide⟩ := ih (spelled_nop.mp hspelled) hnodup hp
    refine ⟨beBytes 4 nopWord ++ before, part, after, ?_, hpart, ?_⟩
    · rw [bytes_nop, hbytes]
      simp only [List.append_assoc]
    · rw [hide, bytes_nop, hhide]
      simp only [List.append_assoc]
  | property raw name value rest ih =>
    obtain ⟨before, part, after, hbytes, hpart, hhide⟩ :=
      ih (spelled_property.mp hspelled).2 hnodup hp
    refine ⟨raw ++ before, part, after, ?_, hpart, ?_⟩
    · rw [bytes_property, hbytes]
      simp only [List.append_assoc]
    · rw [hide, bytes_property, hhide]
      simp only [List.append_assoc]
  | node raw name inner rest ihInner ihRest =>
    obtain ⟨hbegin, hinner, hrest⟩ := spelled_node.mp hspelled
    simp only [children, descendantsAll, Node.descendants, Node.name_mk, List.map_cons,
      List.map_append, List.nodup_cons, List.nodup_append, List.mem_append, not_or] at hnodup
    obtain ⟨⟨hinsideOnly, hrestOnly⟩, hnodupInner, hnodupRest, hdisjoint⟩ := hnodup
    simp only [children, descendantsAll, Node.descendants, Node.name_mk, List.mem_cons,
      List.mem_append] at hp
    -- The node itself, one inside it, or one after it; the other two parts are left alone.
    rcases hp with rfl | hp | hp
    · have hafter : rest.hide [plannerPath (names ++ [name])] (plannerPath names) = rest := by
        refine hide_eq_self fun q hq hmem => hrestOnly ?_
        rw [← List.mem_singleton.mp hmem]
        exact List.mem_map_of_mem hq
      refine ⟨[], raw ++ (inner.bytes ++ beBytes 4 endNodeWord), rest.bytes, ?_,
        ⟨raw, inner, hbegin, hinner, rfl, rfl, rfl⟩, ?_⟩
      · simp only [bytes_node, List.nil_append, List.append_assoc]
      · have hself : EditPlanner.pushName (plannerPath names) name false ∈
            [plannerPath (names ++ [name])] := by
          rw [plannerPath_append]
          exact List.mem_singleton_self _
        rw [hide, if_pos hself, hafter, bytes_nops, List.nil_append]
        simp only [List.length_append, length_beBytes, Nat.add_assoc]
        rfl
    · have hself : EditPlanner.pushName (plannerPath names) name false ∉ [plannerPath p.1] := by
        intro hmem
        rw [← plannerPath_append, List.mem_singleton] at hmem
        exact hinsideOnly (hmem ▸ List.mem_map_of_mem hp)
      have hafter : rest.hide [plannerPath p.1] (plannerPath names) = rest := by
        refine hide_eq_self fun q hq hmem => ?_
        exact hdisjoint _ (List.mem_map_of_mem hp) _ (List.mem_map_of_mem hq)
          (List.mem_singleton.mp hmem).symm
      obtain ⟨before, part, after, hbytes, hpart, hhide⟩ := ihInner hinner hnodupInner hp
      rw [plannerPath_append] at hhide
      refine ⟨raw ++ before, part, after ++ (beBytes 4 endNodeWord ++ rest.bytes), ?_, hpart, ?_⟩
      · rw [bytes_node, hbytes]
        simp only [List.append_assoc]
      · rw [hide, if_neg hself, bytes_node, hhide, hafter]
        simp only [List.append_assoc]
    · have hself : EditPlanner.pushName (plannerPath names) name false ∉ [plannerPath p.1] := by
        intro hmem
        rw [← plannerPath_append, List.mem_singleton] at hmem
        exact hrestOnly (hmem ▸ List.mem_map_of_mem hp)
      have hinside : inner.hide [plannerPath p.1] (EditPlanner.pushName (plannerPath names) name false) =
          inner := by
        rw [← plannerPath_append]
        refine hide_eq_self fun q hq hmem => ?_
        exact hdisjoint _ (List.mem_map_of_mem hq) _ (List.mem_map_of_mem hp)
          (List.mem_singleton.mp hmem)
      obtain ⟨before, part, after, hbytes, hpart, hhide⟩ := ihRest hrest hnodupRest hp
      refine ⟨raw ++ (inner.bytes ++ (beBytes 4 endNodeWord ++ before)), part, after, ?_, hpart, ?_⟩
      · rw [bytes_node, hbytes]
        simp only [List.append_assoc]
      · rw [hide, if_neg hself, bytes_node, hhide, hinside]
        simp only [List.append_assoc]

theorem Root.block_hide_node {xlen : Xlen} {strings : ByteString} {root : Root}
    (hvalid : root.Valid xlen strings)
    (hnodup : ((root.tree.descendants []).map fun p => plannerPath p.1).Nodup)
    {p : List ByteString × Node} (hp : p ∈ root.tree.descendants []) :
    ∃ before part after, root.block = before ++ part ++ after ∧ p.2.SpelledBy strings part ∧
      (root.hide [plannerPath p.1]).block = before ++ nops (part.length / 4) ++ after := by
  obtain ⟨before, part, after, hbytes, hpart, hhide⟩ :=
    Content.bytes_hide_node hvalid.spelled hnodup hp
  refine ⟨nops root.lead ++ root.raw ++ before, part, after ++ (beBytes 4 endNodeWord ++
    (nops root.lag ++ (beBytes 4 endWord ++ root.trailing))), ?_, hpart, ?_⟩
  · rw [root.block_eq, hbytes]
    simp only [List.append_assoc]
  · have hinner : (root.hide [plannerPath p.1]).inner.bytes =
        before ++ nops (part.length / 4) ++ after := hhide
    rw [Root.block_eq, hinner]
    simp only [List.append_assoc]
    rfl

theorem Accepted.hide_node {xlen : Xlen} {source output : ByteString} {layout : Layout}
    {root : Root} (h : Accepted xlen source layout root)
    (hnodup : ((root.tree.descendants []).map fun p => plannerPath p.1).Nodup)
    {p : List ByteString × Node} (hp : p ∈ root.tree.descendants [])
    (hprepare : prepareNextStage xlen source none [plannerPath p.1] = .ok output) :
    ∃ before part after, source.take layout.totalSize = before ++ part ++ after ∧
      p.2.SpelledBy layout.strings part ∧
      output = before ++ nops (part.length / 4) ++ after := by
  obtain ⟨_, _, _, hlaid⟩ := h.laidOut
  obtain ⟨before, part, after, hblock, hpart, hhide⟩ := Root.block_hide_node h.valid hnodup hp
  have hstop : layout.structureOffset + layout.structureBlock.length ≤ layout.totalSize := by
    have hfirst := hlaid.structure_le
    have hsecond := hlaid.strings_le
    omega
  have hstands := hlaid.structureBlock.take_append hstop []
  rw [List.append_nil, h.source] at hstands
  obtain ⟨front, back, hsource, hfront⟩ := hstands
  have hlength : (root.hide [plannerPath p.1]).block.length = layout.structureBlock.length := by
    rw [Root.length_block_hide h.valid, h.block]
  rw [h.prepare_none] at hprepare
  simp only [bind_eq_ok_iff, pure_eq_ok_iff] at hprepare
  obtain ⟨-, -, -, -, rfl⟩ := hprepare
  refine ⟨front ++ before, part, after ++ back, ?_, hpart, ?_⟩
  · rw [hsource, ← h.block, hblock]
    simp only [List.append_assoc]
  · rw [replaced, h.source, hsource, ← hfront, overwrite_append _ _ _ _ hlength, hhide]
    simp only [List.append_assoc]

/-! ## Agreement -/

/-- Discovery and the planner agree on the paths of a tree whose names are not empty and
have no slash: the path is the planner's for the node and for no other, hiding one
discovered node overwrites its bytes, and hiding several takes them out of the tree. -/
theorem discovery_agrees {xlen : Xlen} {source : ByteString}
    (hvalid : validate xlen source = .ok ()) :
    ∃ layout blob, Layout.parse xlen source = .ok layout ∧ decode xlen source = .ok blob ∧
      (blob.root.Plain → blob.root.DistinctSiblings →
        (∀ (T : Type) property (choose : Node → Fallible (Option T)) selection,
          discover property choose blob.root = .ok (some selection) →
            ∃ names node, (names, node) ∈ blob.root.nodes ∧
              choose node = .ok (some selection.resource) ∧
              selection.sourcePath = absolutePath (ascii "/" :: names)) ∧
        (∀ p ∈ blob.root.nodes, absolutePath (ascii "/" :: p.1) = plannerPath p.1) ∧
        (blob.root.nodes.map fun p => plannerPath p.1).Nodup ∧
        (∀ p ∈ blob.root.descendants [], ∀ output,
          prepareNextStage xlen source none [absolutePath (ascii "/" :: p.1)] = .ok output →
            ∃ before part after, source.take layout.totalSize = before ++ part ++ after ∧
              p.2.SpelledBy layout.strings part ∧
              output = before ++ nops (part.length / 4) ++ after) ∧
        ∀ places output, (∀ place ∈ places, place ∈ (blob.root.descendants []).map Prod.fst) →
          prepareNextStage xlen source none
            (places.map fun place => absolutePath (ascii "/" :: place)) = .ok output →
          decode xlen output = .ok { blob with root := blob.root.without places [] }) := by
  obtain ⟨layout, root, h⟩ := validate_iff_accepted.mp hvalid
  obtain ⟨_, _, _, hlaid⟩ := h.laidOut
  obtain ⟨bootCpu, hword⟩ := hlaid.exists_bootCpu
  refine ⟨layout, ⟨layout.reservations, bootCpu, root.tree⟩, h.parse,
    h.decode_iff.mpr ⟨rfl, hword, rfl⟩, ?_⟩
  intro hplain hdistinct
  have hpaths := Node.absolutePath_nodes hplain
  refine ⟨fun T property choose selection => selected_of_discover, hpaths,
    Node.nodup_nodes hplain hdistinct, ?_, ?_⟩
  · intro p hp output hprepare
    rw [hpaths p (List.mem_cons_of_mem _ hp)] at hprepare
    exact h.hide_node (Node.nodup_plannerPath hplain hdistinct) hp hprepare
  intro places output hplaces hprepare
  rw [h.prepare_none] at hprepare
  simp only [bind_eq_ok_iff, pure_eq_ok_iff] at hprepare
  obtain ⟨-, -, -, -, rfl⟩ := hprepare
  have haccepted := h.hidden (places.map fun place => absolutePath (ascii "/" :: place))
  refine haccepted.decode_iff.mpr ⟨rfl, h.bootCpu_hidden _ hword, ?_⟩
  exact (Node.prune_discovered hplain hplaces).symm.trans (root.tree_hide _ hplain).symm

/-- The node `a` found and hidden. -/
theorem discovery_agrees_small :
    ∃ blob output, decode .rv64 smallBlob = .ok blob ∧
      prepareNextStage .rv64 smallBlob none [absolutePath [ascii "/", ascii "a"]] = .ok output ∧
      decode .rv64 output = .ok { blob with root := blob.root.without [[ascii "a"]] [] } := by
  have hvalid : validate .rv64 smallBlob = .ok () := by decide +kernel
  have hok : (prepareNextStage .rv64 smallBlob none
      [absolutePath [ascii "/", ascii "a"]]).isOk = true := by decide +kernel
  have htree : ((decode .rv64 smallBlob).toOption.all fun blob =>
      decide (blob.root.Plain ∧ blob.root.DistinctSiblings ∧
        [ascii "a"] ∈ (blob.root.descendants []).map Prod.fst)) = true := by decide +kernel
  obtain ⟨output, hprepare⟩ := exists_ok_of_isOk hok
  obtain ⟨layout, blob, -, hblob, hagree⟩ := discovery_agrees hvalid
  rw [hblob, Except.toOption, Option.all_some, decide_eq_true_eq] at htree
  obtain ⟨hplain, hdistinct, hplace⟩ := htree
  obtain ⟨-, -, -, -, hhide⟩ := hagree hplain hdistinct
  refine ⟨blob, output, hblob, hprepare, hhide [[ascii "a"]] output ?_ hprepare⟩
  intro place hmem
  rwa [List.mem_singleton.mp hmem]

/-- A root with a node `a`, a node without a name and a node `b` in it, and a node
`a/b`. -/
def oddBlob : ByteString :=
  blobOf [beginNodeWord, 0, beginNodeWord, 0x61000000, beginNodeWord, 0, endNodeWord,
    beginNodeWord, 0x62000000, endNodeWord, endNodeWord, beginNodeWord, 0x612f6200, endNodeWord,
    endNodeWord, endWord] []

/-- A slash in a name gives two nodes one path, and a name that is empty gives a node
two paths. -/
theorem discovery_disagrees :
    validate .rv64 oddBlob = .ok () ∧
      ((decode .rv64 oddBlob).toOption.any fun blob => decide (blob.root.DistinctSiblings ∧
        (blob.root.descendants []).map Prod.fst =
          [[ascii "a"], [ascii "a", []], [ascii "a", ascii "b"], [ascii "a/b"]])) = true ∧
      absolutePath [ascii "/", ascii "a", ascii "b"] = plannerPath [ascii "a/b"] ∧
      absolutePath [ascii "/", ascii "a", []] ≠ plannerPath [ascii "a", []] := by
  decide +kernel

end RustSbi.DeviceTree
