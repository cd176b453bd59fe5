import RustSbi.Ecall.Derive

/-!
Extension probing agrees with dispatch in the code that `RustSBI` derives. The fields that
a struct declares for an extension number are listed as candidates in order; the probe
returns the value of the first available one, and the call is forwarded to it.
-/

namespace RustSbi.Ecall

variable {xlen : Xlen}

/-! ## Fields and their roles -/

/-- What a field is declared as. -/
inductive Role
  | standard (ext : Extension)
  | vendor
  deriving DecidableEq

/-- The role under an extension name. The environment is none. -/
def Slot.roles : Slot → List Role
  | .extension ext => [.standard ext]
  | .envInfo => []

/-- The roles under a name that a field or an attribute item has. -/
def rolesOf (name : Option String) : List Role :=
  match name.bind slotOf with
  | some slot => slot.roles
  | none => []

/-- The roles that an attribute item gives. -/
def Item.roles : Item → List Role
  | .ident "vendor" => [.vendor]
  | .ident name => rolesOf (some name)
  | .path => []

/-- The roles of a field: those of its attributes if it has any, and of its name otherwise. -/
def Field.roles (field : Field) : List Role :=
  match field.items with
  | [] => rolesOf field.ident
  | items => items.flatMap Item.roles

/-- The member, once for each time that the role is given. -/
def assigned (role : Role) (member : Member) (roles : List Role) : List Member :=
  (roles.filter (· = role)).map fun _ => member

/-- The members in a role, in the order of their declaration. -/
def declared (role : Role) (index : Nat) : List Field → List Member
  | [] => []
  | field :: rest =>
    assigned role (field.member index) field.roles ++ declared role (index + 1) rest

theorem Field.roles_of_items {field : Field} (h : field.items ≠ []) :
    field.roles = field.items.flatMap Item.roles := by
  cases hitems : field.items with
  | nil => exact absurd hitems h
  | cons item items => rw [roles, hitems]

theorem Field.roles_of_name {field : Field} (h : field.items = []) :
    field.roles = rolesOf field.ident := by
  rw [roles, h]

theorem assigned_flatMap (role : Role) (member : Member) (items : List Item) :
    assigned role member (items.flatMap Item.roles) =
      items.flatMap fun item => assigned role member item.roles := by
  induction items with
  | nil => rfl
  | cons item items ih =>
    rw [List.flatMap_cons, List.flatMap_cons, ← ih]
    simp only [assigned, List.filter_append, List.map_append]

theorem assigned_self (role : Role) (member : Member) : assigned role member [role] = [member] := by
  simp [assigned]

theorem assigned_other {role role' : Role} (member : Member) (h : role' ≠ role) :
    assigned role member [role'] = [] := by
  simp [assigned, h]

/-- A fold each of whose steps appends to a list appends to it throughout. -/
theorem foldlM_append {S A B : Type} {step : S → A → Option S} {f : S → List B} {g : A → List B}
    (hstep : ∀ s a s', step s a = some s' → f s' = f s ++ g a) {as : List A} {s s' : S}
    (h : as.foldlM step s = some s') : f s' = f s ++ as.flatMap g := by
  induction as generalizing s with
  | nil =>
    rw [List.foldlM_nil] at h
    cases h
    simp
  | cons a as ih =>
    rw [List.foldlM_cons, Option.bind_eq_bind, Option.bind_eq_some_iff] at h
    obtain ⟨s₁, hfirst, hrest⟩ := h
    rw [ih hrest, hstep s a s₁ hfirst, List.append_assoc, List.flatMap_cons]

section Parsing

variable {role : Role} {member : Member} {slot : Slot} {item : Item}

namespace StaticImpl

/-- The members in a role. -/
def members (imp : StaticImpl) : Role → List Member
  | .standard ext => (imp.field ext).toList
  | .vendor => imp.vendor.toList

theorem replace_members {imp imp' : StaticImpl} (h : imp.replace slot member = some imp') :
    imp'.members role = imp.members role ++ assigned role member slot.roles := by
  cases slot with
  | envInfo =>
    rw [replace] at h
    cases henv : imp.envInfo with
    | none =>
      rw [henv] at h
      cases h
      cases role <;> exact (List.append_nil _).symm
    | some m =>
      rw [henv] at h
      cases h
  | extension ext =>
    rw [replace] at h
    rw [Slot.roles]
    cases hfield : imp.field ext with
    | none =>
      rw [hfield] at h
      cases h
      cases role with
      | vendor => rw [assigned_other member (by simp), List.append_nil, members, members]
      | standard ext' =>
        by_cases heq : ext' = ext
        · subst heq
          simp [members, assigned_self, hfield]
        · rw [assigned_other member (by simpa using Ne.symm heq)]
          simp [members, Function.update_of_ne heq]
    | some m =>
      rw [hfield] at h
      cases h

theorem addItem_members {imp imp' : StaticImpl} (h : imp.addItem member item = some imp') :
    imp'.members role = imp.members role ++ assigned role member item.roles := by
  unfold addItem at h
  split at h
  next =>
    cases h
    exact (List.append_nil _).symm
  next =>
    cases hvendor : imp.vendor with
    | none =>
      rw [hvendor] at h
      cases h
      cases role with
      | vendor => simp [members, Item.roles, assigned_self, hvendor]
      | standard ext => simp [members, Item.roles, assigned]
    | some m =>
      rw [hvendor] at h
      cases h
  next name _ hname =>
    cases hslot : slotOf name with
    | none =>
      rw [hslot] at h
      cases h
    | some slot =>
      rw [hslot] at h
      have hroles : Item.roles (.ident name) = slot.roles := by
        rw [Item.roles, rolesOf, Option.bind_some, hslot]
        exact hname
      rw [hroles]
      exact replace_members h
  next => cases h

theorem addField_members {imp imp' : StaticImpl} {field : Field} {index : Nat}
    (h : imp.addField field index = some imp') :
    imp'.members role =
      imp.members role ++ assigned role (field.member index) field.roles := by
  rw [addField] at h
  split at h
  next hitems =>
    rw [Field.roles_of_name hitems, rolesOf]
    cases hslot : field.ident.bind slotOf with
    | none =>
      rw [hslot] at h
      cases h
      exact (List.append_nil _).symm
    | some slot =>
      rw [hslot] at h
      exact replace_members h
  next hitems =>
    rw [Field.roles_of_items hitems, assigned_flatMap]
    refine foldlM_append (f := fun imp : StaticImpl => imp.members role) ?_ h
    intro imp item imp' hitem
    exact addItem_members hitem

theorem addFields_members {imp imp' : StaticImpl} {fields : List Field} {index : Nat}
    (h : imp.addFields index fields = some imp') :
    imp'.members role = imp.members role ++ declared role index fields := by
  induction fields generalizing imp index with
  | nil =>
    cases h
    rw [declared, List.append_nil]
  | cons field rest ih =>
    rw [addFields, Option.bind_eq_bind, Option.bind_eq_some_iff] at h
    obtain ⟨imp₁, hfirst, hrest⟩ := h
    rw [ih hrest, addField_members hfirst, declared, List.append_assoc]

theorem empty_members : empty.members role = [] := by
  cases role <;> rfl

end StaticImpl

namespace DynamicImpl

/-- The members in a role. -/
def members (imp : DynamicImpl) : Role → List Member
  | .standard ext => imp.field ext
  | .vendor => imp.vendor.toList

theorem push_members (imp : DynamicImpl) :
    (imp.push slot member).2.members role =
      imp.members role ++ assigned role member slot.roles := by
  cases slot with
  | envInfo => cases role <;> exact (List.append_nil _).symm
  | extension ext =>
    rw [push, Slot.roles]
    cases role with
    | vendor => rw [assigned_other member (by simp), List.append_nil, members, members]
    | standard ext' =>
      by_cases heq : ext' = ext
      · subst heq
        simp [members, assigned_self]
      · rw [assigned_other member (by simpa using Ne.symm heq), List.append_nil]
        exact Function.update_of_ne heq _ _

theorem addItem_members {imp imp' : DynamicImpl} (h : imp.addItem member item = some imp') :
    imp'.members role = imp.members role ++ assigned role member item.roles := by
  unfold addItem at h
  split at h
  next =>
    cases h
    exact (List.append_nil _).symm
  next =>
    cases hvendor : imp.vendor with
    | none =>
      rw [hvendor] at h
      cases h
      cases role with
      | vendor => simp [members, Item.roles, assigned_self, hvendor]
      | standard ext => simp [members, Item.roles, assigned]
    | some m =>
      rw [hvendor] at h
      cases h
  next name _ hname =>
    cases hslot : slotOf name with
    | none =>
      rw [hslot] at h
      cases h
    | some slot =>
      rw [hslot] at h
      have hroles : Item.roles (.ident name) = slot.roles := by
        rw [Item.roles, rolesOf, Option.bind_some, hslot]
        exact hname
      simp only [Option.ite_none_right_eq_some, Option.some.injEq] at h
      rw [hroles, ← h.2]
      exact push_members imp
  next => cases h

theorem addField_members {imp imp' : DynamicImpl} {field : Field} {index : Nat}
    (h : imp.addField field index = some imp') :
    imp'.members role =
      imp.members role ++ assigned role (field.member index) field.roles := by
  rw [addField] at h
  split at h
  next hitems =>
    rw [Field.roles_of_name hitems, rolesOf]
    cases hslot : field.ident.bind slotOf with
    | none =>
      rw [hslot] at h
      cases h
      exact (List.append_nil _).symm
    | some slot =>
      rw [hslot] at h
      cases h
      exact push_members imp
  next hitems =>
    rw [Field.roles_of_items hitems, assigned_flatMap]
    refine foldlM_append (f := fun imp : DynamicImpl => imp.members role) ?_ h
    intro imp item imp' hitem
    exact addItem_members hitem

theorem addFields_members {imp imp' : DynamicImpl} {fields : List Field} {index : Nat}
    (h : imp.addFields index fields = some imp') :
    imp'.members role = imp.members role ++ declared role index fields := by
  induction fields generalizing imp index with
  | nil =>
    cases h
    rw [declared, List.append_nil]
  | cons field rest ih =>
    rw [addFields, Option.bind_eq_bind, Option.bind_eq_some_iff] at h
    obtain ⟨imp₁, hfirst, hrest⟩ := h
    rw [ih hrest, addField_members hfirst, declared, List.append_assoc]

theorem empty_members : empty.members role = [] := by
  cases role <;> rfl

end DynamicImpl

end Parsing

/-! ## Extension numbers -/

/-- The standard extension with a number. -/
def Extension.ofEid (eid : Word xlen) : Option Extension := Extension.all.find? (·.eid = eid)

theorem Extension.ofEid_eq_some_iff {eid : Word xlen} {ext : Extension} :
    ofEid eid = some ext ↔ eid = ext.eid := by
  constructor
  · intro h
    have hfound := List.find?_some h
    exact (of_decide_eq_true hfound).symm
  · rintro rfl
    cases h : ofEid (ext.eid : Word xlen) with
    | none =>
      have hmissed := List.find?_eq_none.mp h ext ext.mem_all
      simp at hmissed
    | some ext' =>
      have hfound := List.find?_some h
      rw [eid_inj (of_decide_eq_true hfound)]

theorem Extension.ofEid_eq_none_iff {eid : Word xlen} :
    ofEid eid = none ↔ ∀ ext : Extension, eid ≠ ext.eid := by
  rw [Option.eq_none_iff_forall_ne_some]
  simp only [ne_eq, ofEid_eq_some_iff]

section Lookup

variable {K V : Type} [BEq K] [LawfulBEq K] {l : List (K × V)} {k : K} {v : V}

theorem lookup_eq_some_of_unique (hmem : (k, v) ∈ l) (hunique : ∀ p ∈ l, p.1 = k → p.2 = v) :
    l.lookup k = some v := by
  cases h : l.lookup k with
  | none =>
    have hmissed := List.lookup_eq_none_iff.mp h (k, v) hmem
    simp at hmissed
  | some v' =>
    obtain ⟨l₁, l₂, rfl, -⟩ := List.lookup_eq_some_iff.mp h
    exact congrArg some (hunique (k, v') (by simp) rfl)

theorem lookup_eq_none_of_forall (h : ∀ p ∈ l, p.1 ≠ k) : l.lookup k = none := by
  rw [List.lookup_eq_none_iff]
  intro p hp
  simpa using (h p hp).symm

end Lookup

/-- Both matches name each extension once, under its number. -/
theorem lookup_arms {arms : List (Word xlen × Extension)} (hnumber : ∀ arm ∈ arms, arm.1 = arm.2.eid)
    (hall : ∀ ext : Extension, (ext.eid, ext) ∈ arms) (eid : Word xlen) :
    arms.lookup eid = Extension.ofEid eid := by
  cases h : Extension.ofEid eid with
  | none =>
    rw [Extension.ofEid_eq_none_iff] at h
    apply lookup_eq_none_of_forall
    intro arm harm heq
    exact h arm.2 (heq.symm.trans (hnumber arm harm))
  | some ext =>
    rw [Extension.ofEid_eq_some_iff] at h
    subst h
    apply lookup_eq_some_of_unique (hall ext)
    intro arm harm heq
    exact Extension.eid_inj ((hnumber arm harm).symm.trans heq)

theorem probeArms_number : ∀ arm ∈ (probeArms : List (Word xlen × Extension)), arm.1 = arm.2.eid := by
  cases xlen <;> decide +kernel

theorem dispatchArms_number :
    ∀ arm ∈ (dispatchArms : List (Word xlen × Extension)), arm.1 = arm.2.eid := by
  cases xlen <;> decide +kernel

theorem lookup_probeArms (eid : Word xlen) : probeArms.lookup eid = Extension.ofEid eid :=
  lookup_arms probeArms_number (fun ext => by cases ext <;> simp [probeArms, Extension.eid]) eid

theorem mem_dispatchArms (ext : Extension) :
    (ext.eid, ext) ∈ (dispatchArms : List (Word xlen × Extension)) := by
  cases ext <;> simp [dispatchArms, Extension.eid]

theorem lookup_dispatchArms (eid : Word xlen) : dispatchArms.lookup eid = Extension.ofEid eid :=
  lookup_arms dispatchArms_number mem_dispatchArms eid

/-! ## Candidates -/

/-- The first candidate whose probe value is not zero. -/
def firstAvailable (candidates : List (Target × Word xlen)) : Option (Target × Word xlen) :=
  candidates.find? (·.2 ≠ 0)

/-- A probe value and an outcome agree with a list of candidates: the value is that of the
first available one, which gets the call; without one the call is not supported. -/
structure Routes (candidates : List (Target × Word xlen)) (value : Word xlen)
    (outcome : Outcome xlen) : Prop where
  value_eq : value = match firstAvailable candidates with
    | some (_, value) => value
    | none => 0
  forwarded_eq : outcome.forwarded = (firstAvailable candidates).map Prod.fst
  ret_eq : outcome.forwarded = none → outcome.ret = .notSupported

namespace Routes

theorem nil : Routes ([] : List (Target × Word xlen)) 0 .notSupported := ⟨rfl, rfl, fun _ => rfl⟩

theorem cons_available {target : Target} {value : Word xlen} {rest : List (Target × Word xlen)}
    {outcome : Outcome xlen} (hvalue : value ≠ 0) (hforwarded : outcome.forwarded = some target) :
    Routes ((target, value) :: rest) value outcome := by
  have hfirst : firstAvailable ((target, value) :: rest) = some (target, value) := by
    exact List.find?_cons_of_pos (decide_eq_true hvalue)
  refine ⟨by rw [hfirst], by rw [hfirst, hforwarded]; rfl, fun h => ?_⟩
  rw [hforwarded] at h
  cases h

theorem cons_unavailable {target : Target} {value : Word xlen} {rest : List (Target × Word xlen)}
    {outcome : Outcome xlen} (h : Routes rest value outcome) :
    Routes ((target, 0) :: rest) value outcome := by
  have hfirst : firstAvailable ((target, (0 : Word xlen)) :: rest) = firstAvailable rest := by
    simp [firstAvailable]
  exact ⟨by rw [hfirst]; exact h.value_eq, by rw [hfirst]; exact h.forwarded_eq, h.ret_eq⟩

/-- The value tells whether the call is forwarded. -/
theorem value_ne_zero_iff {candidates : List (Target × Word xlen)} {value : Word xlen}
    {outcome : Outcome xlen} (h : Routes candidates value outcome) :
    value ≠ 0 ↔ ∃ target, outcome.forwarded = some target := by
  rw [h.value_eq, h.forwarded_eq]
  cases hfirst : firstAvailable candidates with
  | none => simp
  | some candidate =>
    have hne := List.find?_some hfirst
    simpa using hne

end Routes

/-! ## Vendor extensions -/

section Vendor

theorem reserved_eid (ext : Extension) : reserved (ext.eid : Word xlen) = true := by
  have hall : ∀ ext ∈ Extension.all, reserved (ext.eid : Word xlen) = true := by
    cases xlen <;> decide +kernel
  exact hall ext ext.mem_all

theorem reserved_base : reserved (eidBase : Word xlen) = true := by
  cases xlen <;> decide +kernel

theorem validateLoop_spec {ids seen : List (Word xlen)} (h : validateLoop seen ids = true) :
    (∀ id ∈ ids, reserved id = false ∧ id ∉ seen) ∧ ids.Nodup := by
  induction ids generalizing seen with
  | nil => simp
  | cons id rest ih =>
    simp only [validateLoop, Bool.and_eq_true, Bool.not_eq_true', List.contains_eq_mem,
      decide_eq_false_iff_not] at h
    obtain ⟨⟨⟨-, hreserved⟩, hfresh⟩, hrest⟩ := h
    obtain ⟨hall, hnodup⟩ := ih hrest
    constructor
    · intro id' hid'
      rcases List.mem_cons.mp hid' with rfl | hmem
      · exact ⟨hreserved, hfresh⟩
      · exact ⟨(hall id' hmem).1, fun hseen => (hall id' hmem).2 (List.mem_append_left _ hseen)⟩
    · refine List.nodup_cons.mpr ⟨fun hmem => ?_, hnodup⟩
      exact (hall id hmem).2 (List.mem_append_right _ List.mem_cons_self)

/-- The numbers of a vendor struct are no standard ones, and each is bound once. -/
theorem VendorStruct.numbers (value : VendorStruct xlen) :
    (∀ binding ∈ value.extensions, reserved binding.1 = false) ∧
      (value.extensions.map Prod.fst).Nodup := by
  obtain ⟨hall, hnodup⟩ := validateLoop_spec value.valid
  exact ⟨fun binding hmem => (hall _ (List.mem_map_of_mem hmem)).1, hnodup⟩

/-- The struct that a vendor value ends in. -/
def Vendor.active : Vendor xlen → Option (VendorStruct xlen)
  | .struct value => some value
  | .variant inner => inner.active
  | .absent => none
  | .present inner => inner.active

/-- The fields of a vendor struct for a number, with their probe values. -/
def VendorStruct.candidates (value : VendorStruct xlen) (eid : Word xlen) :
    List (Target × Word xlen) :=
  (value.extensions.filter (·.1 = eid)).map fun (_, member) =>
    (.vendor member, (value.field member).probe)

/-- The candidates of a vendor value. -/
def Vendor.candidates (vendor : Vendor xlen) (eid : Word xlen) : List (Target × Word xlen) :=
  match vendor.active with
  | some value => value.candidates eid
  | none => []

/-- With every key bound once, the bindings of a key are the one that the match finds. -/
theorem filter_eq_lookup {V : Type} {l : List (Word xlen × V)} (hnodup : (l.map Prod.fst).Nodup)
    (k : Word xlen) : l.filter (·.1 = k) = ((l.lookup k).map fun v => (k, v)).toList := by
  induction l with
  | nil => rfl
  | cons p l ih =>
    obtain ⟨k', v⟩ := p
    rw [List.map_cons, List.nodup_cons] at hnodup
    by_cases heq : k' = k
    · subst heq
      have hrest : l.filter (·.1 = k') = [] := by
        rw [List.filter_eq_nil_iff]
        intro p hp
        rw [decide_eq_true_eq]
        intro hkey
        have hmem : p.1 ∈ l.map Prod.fst := List.mem_map_of_mem hp
        exact hnodup.1 (hkey ▸ hmem)
      simp [hrest]
    · have hlookup : ((k', v) :: l).lookup k = l.lookup k := by
        rw [List.lookup_cons, beq_eq_false_iff_ne.mpr (Ne.symm heq)]
      rw [hlookup, ← ih hnodup.2]
      simp [heq]

theorem Vendor.routes (vendor : Vendor xlen) (eid function : Word xlen) (param : Params xlen) :
    Routes (vendor.candidates eid) (vendor.probeExtension eid)
      (vendor.handleEcall eid function param) := by
  induction vendor with
  | struct value =>
    have hbound := filter_eq_lookup value.numbers.2 eid
    simp only [candidates, active, VendorStruct.candidates, hbound, probeExtension, handleEcall]
    cases hlookup : value.extensions.lookup eid with
    | none => exact .nil
    | some member =>
      by_cases hprobe : (value.field member).probe = 0
      · simp only [Option.map_some, Option.toList_some, List.map_cons, List.map_nil, hprobe, if_true]
        exact .cons_unavailable .nil
      · simp only [Option.map_some, Option.toList_some, List.map_cons, List.map_nil, if_neg hprobe]
        exact .cons_available hprobe rfl
  | variant inner ih => exact ih
  | absent => exact .nil
  | present inner ih => exact ih

/-- No field of a vendor value serves a standard number. -/
theorem Vendor.candidates_of_reserved (vendor : Vendor xlen) {eid : Word xlen}
    (h : reserved eid = true) : vendor.candidates eid = [] := by
  rw [candidates]
  cases vendor.active with
  | none => rfl
  | some value =>
    have hnone : value.extensions.filter (·.1 = eid) = [] := by
      rw [List.filter_eq_nil_iff]
      intro binding hmem
      have hfree := value.numbers.1 binding hmem
      simp only [decide_eq_true_eq]
      rintro rfl
      rw [h] at hfree
      cases hfree
    simp [VendorStruct.candidates, hnone]

end Vendor

/-! ## The generated code -/

/-- The probe value of a field. The static mode reports 1 for each. -/
def standardValue (parseMode : ParseMode) (self : Platform xlen) (ext : Extension) (member : Member) :
    Word xlen :=
  match parseMode with
  | .static => 1
  | .dynamic => (self.implementation member).probe ext

/-- The candidates of the vendor field. -/
def vendorCandidates (vendor : Option Member) (self : Platform xlen) (eid : Word xlen) :
    List (Target × Word xlen) :=
  match vendor with
  | some member => (self.vendor member).candidates eid
  | none => []

/-- The implementations that a struct has for a number, in the order of their declaration:
the base extension, its fields and those of its vendor field. -/
def candidates (parseMode : ParseMode) (fields : List Field) (vendor : Option Member)
    (self : Platform xlen) (eid : Word xlen) : List (Target × Word xlen) :=
  (if eid = eidBase then [(.base, 1)] else []) ++
    (match Extension.ofEid eid with
      | some ext => (declared (.standard ext) 0 fields).map fun member =>
          (.standard ext member, standardValue parseMode self ext member)
      | none => []) ++
    vendorCandidates vendor self eid

section Modes

variable {parseMode : ParseMode} {fields : List Field} {vendor : Option Member}
  {self : Platform xlen} {eid : Word xlen}

theorem one_ne_zero_word : (1 : Word xlen) ≠ 0 := by
  cases xlen <;> decide

theorem vendorCandidates_of_reserved (h : reserved eid = true) :
    vendorCandidates vendor self eid = [] := by
  cases vendor with
  | none => rfl
  | some member => exact (self.vendor member).candidates_of_reserved h

theorem candidates_base :
    candidates parseMode fields vendor self eidBase = [(.base, 1)] := by
  have hnone : Extension.ofEid (eidBase : Word xlen) = none :=
    Extension.ofEid_eq_none_iff.mpr fun ext => (ext.eid_ne_base).symm
  simp [candidates, hnone, vendorCandidates_of_reserved reserved_base]

theorem candidates_standard (ext : Extension) :
    candidates parseMode fields vendor self ext.eid =
      (declared (.standard ext) 0 fields).map fun member =>
        (.standard ext member, standardValue parseMode self ext member) := by
  have hsome : Extension.ofEid (ext.eid : Word xlen) = some ext :=
    Extension.ofEid_eq_some_iff.mpr rfl
  simp [candidates, hsome, ext.eid_ne_base, vendorCandidates_of_reserved (reserved_eid ext)]

theorem candidates_other (hbase : eid ≠ eidBase) (hnone : Extension.ofEid eid = none) :
    candidates parseMode fields vendor self eid = vendorCandidates vendor self eid := by
  simp [candidates, hbase, hnone]

theorem vendor_routes (function : Word xlen) (param : Params xlen) :
    Routes (vendorCandidates vendor self eid)
      (match vendor with
        | some member => (self.vendor member).probeExtension eid
        | none => 0)
      (self.vendorDispatch vendor eid function param) := by
  cases vendor with
  | none => exact .nil
  | some member => exact (self.vendor member).routes eid function param

/-- The two pieces of code for the fields of an extension in the dynamic mode. -/
theorem contents_routes (ext : Extension) (function : Word xlen) (param : Params xlen)
    (members : List Member) :
    Routes (members.map fun member => (.standard ext member, (self.implementation member).probe ext))
      (self.prober ext members) (self.contents ext function param members) := by
  induction members with
  | nil => exact .nil
  | cons member rest ih =>
    rw [List.map_cons, Platform.prober, Platform.contents]
    by_cases hprobe : (self.implementation member).probe ext = 0
    · simp only [hprobe, ne_eq, not_true_eq_false, if_false]
      exact .cons_unavailable ih
    · simp only [ne_eq, hprobe, not_false_eq_true, if_true]
      exact .cons_available hprobe rfl

theorem DynamicImpl.routes {imp : DynamicImpl} (hfield : ∀ ext, imp.field ext = declared (.standard ext) 0 fields)
    (self : Platform xlen) (eid function : Word xlen) (param : Params xlen) :
    Routes (candidates .dynamic fields imp.vendor self eid) (imp.probeExtension self eid)
      (imp.handleEcall self eid function param) := by
  rw [DynamicImpl.probeExtension, DynamicImpl.handleEcall, lookup_probeArms, lookup_dispatchArms]
  by_cases hbase : eid = eidBase
  · subst hbase
    have hnone : Extension.ofEid (eidBase : Word xlen) = none :=
      Extension.ofEid_eq_none_iff.mpr fun ext => (ext.eid_ne_base).symm
    simp only [candidates_base, hnone, if_true]
    exact .cons_available one_ne_zero_word rfl
  · rw [if_neg hbase]
    cases hext : Extension.ofEid eid with
    | some ext =>
      have heid := Extension.ofEid_eq_some_iff.mp hext
      subst heid
      rw [candidates_standard, ← hfield]
      exact contents_routes ext function param (imp.field ext)
    | none =>
      rw [candidates_other hbase hext, if_neg hbase]
      exact vendor_routes function param

namespace StaticImpl

theorem lookup_matchArms (imp : StaticImpl) (eid : Word xlen) :
    imp.matchArms.lookup eid =
      (Extension.ofEid eid).bind fun ext => (imp.field ext).map fun member => (ext, member) := by
  have harms : ∀ arm ∈ (imp.matchArms : List (Word xlen × Extension × Member)),
      arm.1 = arm.2.1.eid ∧ imp.field arm.2.1 = some arm.2.2 := by
    intro arm harm
    obtain ⟨⟨eid, ext⟩, hmem, harm⟩ := List.mem_filterMap.mp harm
    obtain ⟨member, hfield, rfl⟩ := Option.map_eq_some_iff.mp harm
    exact ⟨dispatchArms_number (eid, ext) hmem, hfield⟩
  cases hext : Extension.ofEid eid with
  | none =>
    rw [Extension.ofEid_eq_none_iff] at hext
    apply lookup_eq_none_of_forall
    intro arm harm heq
    exact hext arm.2.1 (heq.symm.trans (harms arm harm).1)
  | some ext =>
    have heid := Extension.ofEid_eq_some_iff.mp hext
    subst heid
    -- An arm with this number is that of the extension.
    have hsame : ∀ arm ∈ (imp.matchArms : List (Word xlen × Extension × Member)),
        arm.1 = ext.eid → arm.2.1 = ext := fun arm harm heq =>
      Extension.eid_inj ((harms arm harm).1.symm.trans heq)
    cases hfield : imp.field ext with
    | none =>
      rw [Option.bind_some, hfield]
      apply lookup_eq_none_of_forall
      intro arm harm heq
      have hsome := (harms arm harm).2
      rw [hsame arm harm heq, hfield] at hsome
      cases hsome
    | some member =>
      rw [Option.bind_some, hfield]
      apply lookup_eq_some_of_unique
      · apply List.mem_filterMap.mpr
        exact ⟨(ext.eid, ext), mem_dispatchArms ext, by simp [hfield]⟩
      · intro arm harm heq
        have hsome := (harms arm harm).2
        rw [hsame arm harm heq, hfield] at hsome
        exact Prod.ext (hsame arm harm heq) (Option.some.inj hsome).symm

theorem standardProbe_eq (imp : StaticImpl) (hbase : eid ≠ eidBase) :
    imp.standardProbe eid =
      match (Extension.ofEid eid).bind imp.field with
      | some _ => 1
      | none => 0 := by
  rw [standardProbe, if_neg hbase, lookup_probeArms]
  cases Extension.ofEid eid with
  | none => rfl
  | some ext => cases h : imp.field ext <;> simp [h]

theorem probeExtension_of_standard (imp : StaticImpl) (self : Platform xlen)
    (h : imp.standardProbe eid = 1) : imp.probeExtension self eid = 1 := by
  rw [probeExtension, h]
  cases imp.vendor with
  | none => rfl
  | some vendor => exact if_pos one_ne_zero_word

theorem probeExtension_of_no_standard (imp : StaticImpl) (self : Platform xlen)
    (h : imp.standardProbe eid = 0) :
    imp.probeExtension self eid =
      match imp.vendor with
      | some member => (self.vendor member).probeExtension eid
      | none => 0 := by
  rw [probeExtension, h]
  cases imp.vendor with
  | none => rfl
  | some vendor => exact if_neg (not_not.mpr rfl)

theorem routes {imp : StaticImpl} (hfield : ∀ ext, (imp.field ext).toList = declared (.standard ext) 0 fields)
    (self : Platform xlen) (eid function : Word xlen) (param : Params xlen) :
    Routes (candidates .static fields imp.vendor self eid) (imp.probeExtension self eid)
      (imp.handleEcall self eid function param) := by
  rw [handleEcall, lookup_matchArms]
  by_cases hbase : eid = eidBase
  · subst hbase
    have hprobe : imp.standardProbe (eidBase : Word xlen) = 1 := if_pos rfl
    rw [candidates_base, imp.probeExtension_of_standard self hprobe, if_pos rfl]
    exact .cons_available one_ne_zero_word rfl
  · rw [if_neg hbase]
    have hprobe := imp.standardProbe_eq hbase
    cases hext : Extension.ofEid eid with
    | none =>
      rw [hext, Option.bind_none] at hprobe
      rw [candidates_other hbase hext, imp.probeExtension_of_no_standard self hprobe]
      exact vendor_routes function param
    | some ext =>
      rw [hext, Option.bind_some] at hprobe
      have heid := Extension.ofEid_eq_some_iff.mp hext
      subst heid
      rw [candidates_standard, ← hfield, Option.bind_some]
      cases hmember : imp.field ext with
      | some member =>
        rw [hmember] at hprobe
        rw [imp.probeExtension_of_standard self hprobe]
        exact .cons_available one_ne_zero_word rfl
      | none =>
        -- A standard number without a field falls to the vendor field, which has no use for it.
        rw [hmember] at hprobe
        rw [imp.probeExtension_of_no_standard self hprobe]
        have hvendor := @vendor_routes xlen imp.vendor self ext.eid function param
        rw [vendorCandidates_of_reserved (reserved_eid ext)] at hvendor
        exact hvendor

end StaticImpl

end Modes

/-! ## Derived structs -/

namespace Derived

/-- The probe of the generated code. -/
def probeExtension (self : Platform xlen) (eid : Word xlen) : Derived → Word xlen
  | static imp => imp.probeExtension self eid
  | dynamic imp => imp.probeExtension self eid

/-- The base probe of a number returns the value of the probe for it. -/
theorem handleEcall_probe (d : Derived) (self : Platform xlen) (param : Params xlen) :
    (d.handleEcall self eidBase (BitVec.ofNat xlen.bits Base.probeExtension) param).ret =
      .success (d.probeExtension self param.a0) := by
  have hreply : ∀ info probe, rustsbiBase param (BitVec.ofNat xlen.bits Base.probeExtension) info
      probe = .success (probe param.a0) := by
    intro info probe
    cases xlen <;> rfl
  have hnone : (dispatchArms : List (Word xlen × Extension)).lookup eidBase = none := by
    rw [lookup_dispatchArms, Extension.ofEid_eq_none_iff]
    exact fun ext => (ext.eid_ne_base).symm
  cases d with
  | static imp =>
    rw [handleEcall, StaticImpl.handleEcall, if_pos rfl]
    exact hreply _ _
  | dynamic imp =>
    simp only [handleEcall, DynamicImpl.handleEcall, hnone, if_true]
    exact hreply _ _

theorem eq_head?_of_toList {α : Type} {o : Option α} {l : List α} (h : o.toList = l) :
    o = l.head? := by
  rw [← h]
  cases o <;> rfl

/-- The generated code routes every number among the declared candidates. -/
theorem routes {machine : Bool} {parseMode : ParseMode} {fields : List Field} {d : Derived}
    (hderive : deriveRustsbi machine parseMode fields = some d) (self : Platform xlen)
    (eid function : Word xlen) (param : Params xlen) :
    Routes (candidates parseMode fields (declared .vendor 0 fields).head? self eid)
      (d.probeExtension self eid) (d.handleEcall self eid function param) := by
  cases parseMode with
  | static =>
    rw [deriveRustsbi, Option.bind_eq_bind, Option.bind_eq_some_iff] at hderive
    obtain ⟨imp, hparse, hderive⟩ := hderive
    simp only [Option.ite_none_right_eq_some, Option.some.injEq] at hderive
    obtain ⟨-, rfl⟩ := hderive
    have hmembers : ∀ role, imp.members role = declared role 0 fields := by
      intro role
      rw [StaticImpl.addFields_members hparse, StaticImpl.empty_members, List.nil_append]
    rw [← eq_head?_of_toList (hmembers .vendor)]
    exact StaticImpl.routes (fun ext => hmembers (.standard ext)) self eid function param
  | dynamic =>
    rw [deriveRustsbi, Option.bind_eq_bind, Option.bind_eq_some_iff] at hderive
    obtain ⟨imp, hparse, hderive⟩ := hderive
    simp only [Option.ite_none_right_eq_some, Option.some.injEq] at hderive
    obtain ⟨-, rfl⟩ := hderive
    have hmembers : ∀ role, imp.members role = declared role 0 fields := by
      intro role
      rw [DynamicImpl.addFields_members hparse, DynamicImpl.empty_members, List.nil_append]
    rw [← eq_head?_of_toList (hmembers .vendor)]
    exact DynamicImpl.routes (fun ext => hmembers (.standard ext)) self eid function param

end Derived

/-- Only a number that is not standard has a vendor field as a candidate. -/
theorem mem_candidates_vendor {parseMode : ParseMode} {fields : List Field} {vendor : Option Member}
    {self : Platform xlen} {eid : Word xlen} {member : Member} {value : Word xlen}
    (h : (.vendor member, value) ∈ candidates parseMode fields vendor self eid) (ext : Extension) :
    eid ≠ ext.eid := by
  rintro rfl
  rw [candidates_standard] at h
  obtain ⟨m, -, hm⟩ := List.mem_map.mp h
  cases hm

/-- The base probe agrees with dispatch in every struct that derives `RustSBI`: the value is
not zero exactly when a call with the number is forwarded, namely to the first available
candidate, whose probe value it is. A vendor field never gets a standard number, and
without an available candidate the answer is `not_supported` and nothing is invoked. -/
theorem probe_agrees_with_dispatch (machine : Bool) (parseMode : ParseMode) (fields : List Field)
    (d : Derived) (hderive : deriveRustsbi machine parseMode fields = some d)
    (self : Platform xlen) (eid : Word xlen) :
    let declaredCandidates := candidates parseMode fields (declared .vendor 0 fields).head? self eid
    ∃ value : Word xlen,
      (∀ param, param.a0 = eid →
        (d.handleEcall self eidBase (BitVec.ofNat xlen.bits Base.probeExtension) param).ret =
          .success value) ∧
      ∀ function param, let outcome := d.handleEcall self eid function param
        (value ≠ 0 ↔ ∃ target, outcome.forwarded = some target) ∧
        (∀ target, outcome.forwarded = some target →
          declaredCandidates.find? (·.2 ≠ 0) = some (target, value)) ∧
        (∀ member, outcome.forwarded = some (.vendor member) → ∀ ext : Extension, eid ≠ ext.eid) ∧
        (outcome.forwarded = none →
          outcome.ret = .notSupported ∧ ∀ candidate ∈ declaredCandidates, candidate.2 = 0) := by
  intro declaredCandidates
  refine ⟨d.probeExtension self eid, ?_, ?_⟩
  · rintro param rfl
    exact d.handleEcall_probe self param
  · intro function param outcome
    have hroutes := d.routes hderive self eid function param
    have hfirst : ∀ target, outcome.forwarded = some target →
        declaredCandidates.find? (·.2 ≠ 0) = some (target, d.probeExtension self eid) := by
      intro target htarget
      have hforwarded := hroutes.forwarded_eq.symm.trans htarget
      obtain ⟨⟨target', value⟩, hfound, rfl⟩ := Option.map_eq_some_iff.mp hforwarded
      have hvalue := hroutes.value_eq
      rw [hfound] at hvalue
      rw [hvalue]
      exact hfound
    refine ⟨hroutes.value_ne_zero_iff, hfirst, ?_, ?_⟩
    · intro member hmember ext
      exact mem_candidates_vendor (List.mem_of_find?_eq_some (hfirst _ hmember)) ext
    · intro hnone
      refine ⟨hroutes.ret_eq hnone, ?_⟩
      have hmissed := hroutes.forwarded_eq.symm.trans hnone
      rw [Option.map_eq_none_iff] at hmissed
      intro candidate hmem
      have hzero := List.find?_eq_none.mp hmissed candidate hmem
      simpa using hzero

theorem nonempty_output (ext : Extension) (m : ext.Method xlen) : Nonempty (ext.Output m) := by
  cases ext <;> cases m <;>
    first | exact ⟨SbiRet.notSupported⟩ | exact ⟨(0 : Word xlen)⟩ | exact ⟨()⟩

/-- Two fence fields, of which the first is not available. -/
theorem probe_agrees_with_dispatch_second_fence :
    let fields : List Field := [⟨some "fence_one", [.ident "fence"]⟩,
      ⟨some "fence_two", [.ident "fence"]⟩, ⟨some "env_info", []⟩]
    ∃ (d : Derived) (self : Platform .rv64), deriveRustsbi false .dynamic fields = some d ∧
      (self.implementation (.named "fence_one")).probe .fence = 0 ∧
      (self.implementation (.named "fence_two")).probe .fence = 1 ∧
      ∀ function param, (d.handleEcall self eidRfnc function param).forwarded =
        some (.standard .fence (.named "fence_two")) := by
  intro fields
  let probe : Member → Word .rv64 := fun member => if member = .named "fence_one" then 0 else 1
  let implementation : Member → Implementation .rv64 := fun member =>
    ⟨fun _ => probe member, fun ext m => Classical.choice (nonempty_output ext m)⟩
  let info : EnvInfo .rv64 := ⟨0, 0, 0⟩
  let self : Platform .rv64 := ⟨implementation, fun _ => info, fun _ => .absent, info⟩
  have hderive : ∃ d, deriveRustsbi false .dynamic fields = some d := by
    rw [← Option.isSome_iff_exists]
    decide
  obtain ⟨d, hderive⟩ := hderive
  refine ⟨d, self, hderive, rfl, rfl, ?_⟩
  intro function param
  have hfirst : (candidates .dynamic fields (declared .vendor 0 fields).head? self eidRfnc).find?
      (·.2 ≠ 0) = some (.standard .fence (.named "fence_two"), 1) := by
    have hdeclared : declared (.standard .fence) 0 fields = [.named "fence_one", .named "fence_two"] := by
      decide
    have hbits : Xlen.rv64.bits ≠ 0 := by decide
    rw [show eidRfnc = Extension.fence.eid from rfl, candidates_standard, hdeclared]
    simp [standardValue, self, implementation, probe, hbits]
  obtain ⟨value, -, hcall⟩ := probe_agrees_with_dispatch false .dynamic fields d hderive self eidRfnc
  obtain ⟨-, hforwarded, -, hnone⟩ := hcall function param
  cases htarget : (d.handleEcall self eidRfnc function param).forwarded with
  | none =>
    have hmem := List.mem_of_find?_eq_some hfirst
    exact absurd ((hnone htarget).2 _ hmem) one_ne_zero_word
  | some target =>
    have heq := (hforwarded target htarget).symm.trans hfirst
    cases heq
    rfl

end RustSbi.Ecall
