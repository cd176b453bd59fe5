import RustSbi.Firmware.Entry

/-!
The order of boot. Each program of the boot code fits the statics: it uses one
only where it is known to be filled. So where the previous stage passes all harts
the same handoff, along every run one hart leads the boot, no static is used
before it is cleared and published, and boot comes to an end on every hart on
which nothing fails.
-/

namespace RustSbi.Firmware

open Transition

variable {xlen : Xlen}

/-! ## Programs that fit the statics -/

namespace Static

/-- A static that one transition of one hart fills. -/
def exclusive : Static → Bool
  | .lifecycle _ => true
  | .trapState _ => true
  | .logger => true
  | _ => false

/-- The hart that may fill an exclusive static. -/
def OwnedBy : Static → Role → Nat → Prop
  | .lifecycle g, _, hart => g = hart
  | .trapState g, _, hart => g = hart
  | .logger, role, _ => role = .boot
  | _, _, _ => False

theorem OwnedBy.ne_ready {c : Static} {role : Role} {hart : Nat} (h : c.OwnedBy role hart) :
    c ≠ .ready := by
  rintro rfl
  exact h

theorem OwnedBy.exclusive {c : Static} {role : Role} {hart : Nat} (h : c.OwnedBy role hart) :
    c.exclusive = true := by
  cases c <;> first | rfl | exact h.elim

theorem OwnedBy.hart_eq {c : Static} {role role' : Role} {hart g : Nat} (h : c.OwnedBy role hart)
    (h' : c.OwnedBy role' g) : hart = g ∨ (role = .boot ∧ role' = .boot) := by
  cases c <;> first | exact h.elim | exact .inl (h.symm.trans h') | exact .inr ⟨h, h'⟩

end Static

namespace Platform

variable (p : Platform xlen)

/-- A program that uses only statics that are known to be filled where it stands,
and fills an exclusive one only as its owner and once. -/
def Fits (role : Role) (hart : Nat) : List Static → List Action → Prop
  | known, [] => role = .boot → .ready ∈ known
  | known, .callOnce c :: todo =>
    c.exclusive = false ∧ c ≠ .ready ∧ Fits role hart (c :: known) todo
  | known, .publishOnce c :: todo =>
    c.OwnedBy role hart ∧ .publishOnce c ∉ todo ∧ Fits role hart (c :: known) todo
  | known, .expect c :: todo => c ∈ known ∧ Fits role hart known todo
  | known, .fallible :: todo => Fits role hart known todo
  | known, .markReady :: todo =>
    (∀ c ∈ p.published, c ∈ known) ∧ Fits role hart (.ready :: known) todo
  | known, .waitUntilReady :: todo => role ≠ .boot ∧ Fits role hart (p.published ++ known) todo

variable {p} {role : Role} {hart : Nat}

theorem Fits.mono {todo : List Action} {known known' : List Static} (hsub : known ⊆ known')
    (h : p.Fits role hart known todo) : p.Fits role hart known' todo := by
  induction todo generalizing known known' with
  | nil => exact fun hboot => hsub (h hboot)
  | cons action todo ih =>
    cases action with
    | callOnce c => exact ⟨h.1, h.2.1, ih (List.cons_subset_cons c hsub) h.2.2⟩
    | publishOnce c => exact ⟨h.1, h.2.1, ih (List.cons_subset_cons c hsub) h.2.2⟩
    | expect c => exact ⟨hsub h.1, ih hsub h.2⟩
    | fallible => exact ih hsub h
    | markReady => exact ⟨fun c hc => hsub (h.1 c hc), ih (List.cons_subset_cons .ready hsub) h.2⟩
    | waitUntilReady =>
      refine ⟨h.1, ih (List.append_subset.mpr ⟨List.subset_append_left _ _, ?_⟩) h.2⟩
      exact List.Subset.trans hsub (List.subset_append_right _ _)

theorem fits_callOnce {cs known : List Static} {todo : List Action}
    (hcs : ∀ c ∈ cs, c.exclusive = false ∧ c ≠ .ready)
    (h : p.Fits role hart (cs ++ known) todo) :
    p.Fits role hart known (cs.map .callOnce ++ todo) := by
  induction cs generalizing known with
  | nil => exact h
  | cons c cs ih =>
    obtain ⟨hexclusive, hready⟩ := hcs c List.mem_cons_self
    refine ⟨hexclusive, hready, ih (fun c hc => hcs c (List.mem_cons_of_mem _ hc)) (h.mono ?_)⟩
    exact List.perm_middle.symm.subset

theorem fits_expect {cs known : List Static} {todo : List Action} (hcs : cs ⊆ known)
    (h : p.Fits role hart known todo) : p.Fits role hart known (cs.map .expect ++ todo) := by
  induction cs with
  | nil => exact h
  | cons c cs ih =>
    obtain ⟨hc, hrest⟩ := List.cons_subset.mp hcs
    exact ⟨hc, ih hrest⟩

theorem platform_mem_services (p : Platform xlen) : .platform ∈ p.services := by
  simp [services]

theorem of_mem_services {c : Static} (h : c ∈ p.services) : c.exclusive = false ∧ c ≠ .ready := by
  cases c <;> simp [services, Static.exclusive] at h ⊢

theorem hartLocal_mem_published (p : Platform xlen) (h : hart < numHartMax) :
    .hartLocal hart ∈ p.published := by
  simp [published, h]

theorem platform_mem_published (p : Platform xlen) : .platform ∈ p.published := by
  simp [published, p.platform_mem_services]

theorem sbiDispatcher_mem_published (p : Platform xlen) : .sbiDispatcher ∈ p.published := by
  simp [published]

theorem fits_enableSupervisorServices {known : List Static} (hhart : .hartLocal hart ∈ known)
    (hplatform : .platform ∈ known) (hdispatcher : .sbiDispatcher ∈ known)
    (hready : role = .boot → .ready ∈ known) :
    p.Fits role hart known (p.enableSupervisorServices hart) := by
  unfold enableSupervisorServices
  cases p.usesImsic <;>
    simp [Fits, Static.OwnedBy, hhart, hplatform, hdispatcher] <;>
    exact hready

theorem fits_secondaryHart (boot : Bool) (h : hart < numHartMax) (hrole : role ≠ .boot) :
    p.Fits role hart [] (p.secondaryHart boot hart) := by
  have hmem : ∀ c ∈ p.published, c ∈ p.published ++ [] := fun c hc => List.mem_append_left _ hc
  have hhart := hmem _ (p.hartLocal_mem_published h)
  have hplatform := hmem _ p.platform_mem_published
  have hrest := fits_enableSupervisorServices (p := p) hhart hplatform
    (hmem _ p.sbiDispatcher_mem_published) fun hboot => absurd hboot hrole
  cases boot <;> exact ⟨hrole, hhart, hplatform, hplatform, hrest⟩

theorem fits_publishPlatformServices {known : List Static} {todo : List Action}
    (hheap : .heap ∈ known) (hlocals : (List.range numHartMax).map .hartLocal ⊆ known)
    (hlogger : .publishOnce .logger ∉ todo)
    (htodo : p.Fits .boot hart (.ready :: p.published) todo) :
    p.Fits .boot hart known (p.publishPlatformServices ++ todo) := by
  have hplatform := p.platform_mem_services
  have hall : p.published ⊆ .sbiDispatcher :: .logger :: (p.services ++ known) := by
    simp only [published, List.cons_append, List.nil_append, List.append_assoc]
    refine List.cons_subset_cons _ (List.cons_subset_cons _ (List.append_subset.mpr ⟨?_, ?_⟩))
    · exact List.subset_append_left _ _
    · exact List.subset_append_of_subset_right _
        (List.append_subset.mpr ⟨hlocals, List.cons_subset.mpr ⟨hheap, List.nil_subset _⟩⟩)
  simp only [publishPlatformServices, publishSbiDispatcher, List.append_assoc]
  refine fits_callOnce (fun c hc => of_mem_services hc) ?_
  refine ⟨rfl, by simpa using hlogger, ?_, ?_, ⟨rfl, by decide, hall, ?_, ?_⟩⟩
  · simp [hplatform]
  · simp [hheap]
  · simp [hplatform]
  · exact htodo.mono (List.cons_subset_cons _ hall)

theorem fits_bootHart (h : hart < numHartMax) : p.Fits .boot hart [] (p.bootHart hart) := by
  have hlocals : p.enabled.map Static.hartLocal ⊆
      (List.range numHartMax).map Static.hartLocal ++ [Static.heap] := by
    intro c hc
    obtain ⟨g, hg, rfl⟩ := List.mem_map.mp hc
    simp [p.enabled_lt g hg]
  have hhart := List.mem_cons_of_mem .ready (p.hartLocal_mem_published h)
  have hplatform := List.mem_cons_of_mem .ready p.platform_mem_published
  simp only [bootHart, initBoard, List.append_assoc]
  refine ⟨rfl, by decide, fits_callOnce ?_ ⟨?_, fits_expect hlocals ?_⟩⟩
  · intro c hc
    obtain ⟨g, -, rfl⟩ := List.mem_map.mp hc
    exact ⟨rfl, nofun⟩
  · simp
  · refine fits_publishPlatformServices (by simp) (List.subset_append_left _ _) ?_ ?_
    · unfold enableSupervisorServices
      cases p.usesImsic <;> simp [setPmp, detectHartFeatures]
    · refine ⟨hplatform, hhart, rfl, ?_, fits_enableSupervisorServices ?_ ?_ ?_ ?_⟩
      · unfold enableSupervisorServices
        cases p.usesImsic <;> simp
      · exact List.mem_cons_of_mem _ hhart
      · exact List.mem_cons_of_mem _ hplatform
      · exact List.mem_cons_of_mem _ (List.mem_cons_of_mem _ p.sbiDispatcher_mem_published)
      · exact fun _ => List.mem_cons_of_mem _ List.mem_cons_self

theorem fits_program (role : Role) (h : hart < numHartMax) :
    p.Fits role hart [] (p.program role hart) := by
  cases role with
  | boot => exact fits_bootHart h
  | secondary => exact fits_secondaryHart true h (by decide)
  | warm => exact fits_secondaryHart false h (by decide)

end Platform

/-! ## One boot hart, and statics used in order -/

/-- The hart that leads: the one that is designated, or the one that took
`BOOT_HART_ID`. -/
def Platform.Chosen (p : Platform xlen) (bootHartId hart : Nat) : Prop :=
  match p.selectedHart hart with
  | some hartId => if hartId = xlen.usizeMax then bootHartId = hart else hart = hartId
  | none => bootHartId = hart

/-- The previous stage passes the same handoff to all harts. -/
def Platform.Agreed (p : Platform xlen) : Prop :=
  ∀ h g, p.dynamicInfoAddress h = p.dynamicInfoAddress g

namespace Platform

variable {p : Platform xlen} {bootHartId hart : Nat}

theorem Chosen.unique (hagreed : p.Agreed) {g : Nat} (hhart : p.Chosen bootHartId hart)
    (hg : p.Chosen bootHartId g) : hart = g := by
  have hsame : p.selectedHart hart = p.selectedHart g := by
    rw [selectedHart, selectedHart, hagreed hart g]
  unfold Chosen at hhart hg
  rw [hsame] at hhart
  cases hselected : p.selectedHart g with
  | some hartId =>
    simp only [hselected] at hhart hg
    split at hhart
    next hmax => exact hhart.symm.trans (by rwa [if_pos hmax] at hg)
    next hmax => exact hhart.trans (by rwa [if_neg hmax, eq_comm] at hg)
  | none =>
    simp only [hselected] at hhart hg
    exact hhart.symm.trans hg

theorem numHartMax_le_usizeMax (xlen : Xlen) : numHartMax ≤ xlen.usizeMax := by
  cases xlen <;> decide

theorem claimBootHart_true (h : (claimBootHart xlen bootHartId hart).1 = true) :
    (claimBootHart xlen bootHartId hart).2 = hart := by
  unfold claimBootHart at h ⊢
  split at h
  next hmax => rw [if_pos hmax]
  next hmax =>
    rw [if_neg hmax]
    exact of_decide_eq_true h

theorem chosen_of_isSelectedBootHart
    (h : (isSelectedBootHart xlen (p.selectedHart hart) bootHartId hart).1 = true) :
    p.Chosen (isSelectedBootHart xlen (p.selectedHart hart) bootHartId hart).2 hart := by
  unfold Chosen
  unfold isSelectedBootHart at h ⊢
  cases hselected : p.selectedHart hart with
  | some hartId =>
    simp only [hselected] at h ⊢
    split
    next hmax =>
      rw [if_pos hmax] at h
      exact claimBootHart_true h
    next hmax =>
      rw [if_neg hmax] at h
      exact of_decide_eq_true h
  | none =>
    simp only [hselected] at h ⊢
    exact claimBootHart_true h

/-- `BOOT_HART_ID` is taken once. -/
theorem claimBootHart_of_ne (h : bootHartId ≠ xlen.usizeMax) :
    (claimBootHart xlen bootHartId hart).2 = bootHartId := by
  rw [claimBootHart, if_neg h]

/-- A hart that was chosen stays chosen when another one decodes its handoff. -/
theorem Chosen.isSelectedBootHart {g : Nat} (hlt : g < numHartMax) (hg : p.Chosen bootHartId g) :
    p.Chosen (isSelectedBootHart xlen (p.selectedHart hart) bootHartId hart).2 g := by
  have hkeep : bootHartId = g →
      (Firmware.isSelectedBootHart xlen (p.selectedHart hart) bootHartId hart).2 = g := by
    rintro rfl
    have hne : bootHartId ≠ xlen.usizeMax :=
      Nat.ne_of_lt (Nat.lt_of_lt_of_le hlt (numHartMax_le_usizeMax xlen))
    unfold Firmware.isSelectedBootHart
    split
    · split
      · exact claimBootHart_of_ne hne
      · rfl
    · exact claimBootHart_of_ne hne
  unfold Chosen at hg ⊢
  cases hselected : p.selectedHart g with
  | some hartId =>
    simp only [hselected] at hg ⊢
    split at hg
    next hmax => rw [if_pos hmax]; exact hkeep hg
    next hmax => rw [if_neg hmax]; exact hg
  | none =>
    simp only [hselected] at hg ⊢
    exact hkeep hg

end Platform

/-- The role of a hart that runs or has run a program, with what is left of it. -/
def Pc.running? : Pc → Option (Role × List Action)
  | .run role todo | .stopped role todo => some (role, todo)
  | .finish role => some (role, [])
  | _ => none

/-- The boot hart. -/
def Pc.leads : Pc → Bool
  | .claim => true
  | .run role _ | .finish role | .stopped role _ | .misused role _ => role == .boot
  | _ => false

/-- Behind label 5 and before the program. -/
def Pc.entering : Pc → Bool
  | .locate _ | .decode | .claim => true
  | _ => false

theorem Pc.leads_of_running {pc : Pc} {todo : List Action} (h : pc.running? = some (.boot, todo)) :
    pc.leads = true := by
  cases pc <;> cases h <;> rfl

namespace System

variable {p : Platform xlen} {s : System} {hart : Nat} {pc : Pc}

/-- What holds of a hart where it stands: it has a stack, a boot hart is the
chosen one, and the rest of its program fits the filled statics. -/
def Legal (p : Platform xlen) (s : System) (hart : Nat) : Pc → Prop
  | .decode => hart < numHartMax
  | .claim => hart < numHartMax ∧ p.Chosen s.bootHartId hart
  | .run role todo => hart < numHartMax ∧ (role = .boot → p.Chosen s.bootHartId hart) ∧
    ∃ known, p.Fits role hart known todo ∧ ∀ c ∈ known, s.cells c = .full
  | .finish role => hart < numHartMax ∧
    (role = .boot → p.Chosen s.bootHartId hart ∧ s.cells .ready = .full)
  | .stopped role _ => hart < numHartMax ∧ (role = .boot → p.Chosen s.bootHartId hart)
  | .misused _ _ => False
  | _ => True

/-- An exclusive static that is filled was filled by its owner, who does not come
to it again. -/
def Spent (s : System) (c : Static) : Prop :=
  ∃ hart role todo, (s.pc hart).running? = some (role, todo) ∧ c.OwnedBy role hart ∧
    .publishOnce c ∉ todo

/-- Every hart stands where its program fits, and `READY` stands for all services. -/
structure InOrder (p : Platform xlen) (s : System) : Prop where
  legal : ∀ hart, Legal p s hart (s.pc hart)
  spent : ∀ c, c.exclusive = true → s.cells c = .full → s.Spent c
  published : s.cells .ready = .full → ∀ c ∈ p.published, s.cells c = .full

theorem Legal.chosen (h : Legal p s hart pc) (hleads : pc.leads = true) :
    hart < numHartMax ∧ p.Chosen s.bootHartId hart := by
  cases pc <;> first | cases hleads | skip
  case claim => exact h
  case run role todo => exact ⟨h.1, h.2.1 (of_decide_eq_true hleads)⟩
  case finish role => exact ⟨h.1, (h.2 (of_decide_eq_true hleads)).1⟩
  case stopped role todo => exact ⟨h.1, h.2 (of_decide_eq_true hleads)⟩
  case misused => exact h.elim

theorem Legal.mono {s' : System} (h : Legal p s hart pc)
    (hfull : ∀ c, s.cells c = .full → s'.cells c = .full)
    (hchosen : hart < numHartMax → p.Chosen s.bootHartId hart → p.Chosen s'.bootHartId hart) :
    Legal p s' hart pc := by
  cases pc with
  | claim => exact ⟨h.1, hchosen h.1 h.2⟩
  | run role todo =>
    obtain ⟨hlt, hboot, known, hfits, hknown⟩ := h
    exact ⟨hlt, fun hrole => hchosen hlt (hboot hrole), known, hfits,
      fun c hc => hfull c (hknown c hc)⟩
  | finish role =>
    exact ⟨h.1, fun hrole => ⟨hchosen h.1 (h.2 hrole).1, hfull .ready (h.2 hrole).2⟩⟩
  | stopped role todo => exact ⟨h.1, fun hrole => hchosen h.1 (h.2 hrole)⟩
  | _ => exact h

theorem legal_of_not_past (h : pc.past = false) : Legal p s hart pc := by
  cases pc <;> trivial

namespace InOrder

theorem withEntry (horder : InOrder p s) (race bssReady : BitVec 32) (relocated : Bool) :
    InOrder p { s with race, bssReady, relocated } where
  legal g := (horder.legal g).mono (fun _ => id) fun _ => id
  spent := horder.spent
  published := horder.published

/-- Before BSS is released no static is filled and no hart runs. -/
theorem of_unreleased (hfull : ∀ c, s.cells c ≠ .full) (hpast : ∀ h, (s.pc h).past = false) :
    InOrder p s where
  legal g := legal_of_not_past (hpast g)
  spent c _ hc := absurd hc (hfull c)
  published hready := absurd hready (hfull .ready)

/-- A hart whose program goes on: everything it has filled stays spent. -/
theorem goto (horder : InOrder p s) (hlegal : Legal p s hart pc)
    (hgoes : ∀ role todo, (s.pc hart).running? = some (role, todo) →
      ∃ todo', pc.running? = some (role, todo') ∧ todo' ⊆ todo) :
    InOrder p (s.goto hart pc) where
  legal g := by
    by_cases hne : g = hart
    · subst hne
      rw [goto_pc_same]
      exact hlegal.mono (fun _ => id) fun _ => id
    · rw [goto_pc_other s pc hne]
      exact (horder.legal g).mono (fun _ => id) fun _ => id
  spent c hexclusive hfull := by
    obtain ⟨g, role, todo, hg, howned, hnot⟩ := horder.spent c hexclusive hfull
    by_cases hne : g = hart
    · subst hne
      obtain ⟨todo', hgo, hsub⟩ := hgoes role todo hg
      exact ⟨g, role, todo', by rw [goto_pc_same, hgo], howned, fun hc => hnot (hsub hc)⟩
    · exact ⟨g, role, todo, by rw [goto_pc_other s pc hne, hg], howned, hnot⟩
  published := horder.published

/-- A hart fills a static and goes on. -/
theorem fill (horder : InOrder p s) {role : Role} {action : Action} {todo : List Action}
    {known : List Static} {c : Static} (hpc : s.pc hart = .run role (action :: todo))
    (hfits : p.Fits role hart (c :: known) todo) (hknown : ∀ d ∈ known, s.cells d = .full)
    (hspent : c.exclusive = true → c.OwnedBy role hart ∧ .publishOnce c ∉ todo)
    (hready : c = .ready → ∀ d ∈ p.published, s.cells d = .full) :
    InOrder p ((s.fill c).goto hart (.run role todo)) where
  legal g := by
    by_cases hne : g = hart
    · subst hne
      obtain ⟨hlt, hboot, -⟩ : Legal p s g (.run role (action :: todo)) := hpc ▸ horder.legal g
      rw [goto_pc_same]
      refine ⟨hlt, hboot, c :: known, hfits, fun d hd => ?_⟩
      obtain rfl | hd := List.mem_cons.mp hd
      · exact s.fill_same d
      · exact fill_full (hknown d hd)
    · rw [goto_pc_other _ _ hne]
      exact (horder.legal g).mono (fun _ => fill_full) fun _ => id
  spent d hexclusive hfull := by
    obtain rfl | hfull := eq_or_full_of_fill hfull
    · obtain ⟨howned, hnot⟩ := hspent hexclusive
      exact ⟨hart, role, todo, by rw [goto_pc_same]; rfl, howned, hnot⟩
    · obtain ⟨g, role', todo', hg, howned, hnot⟩ := horder.spent d hexclusive hfull
      by_cases hne : g = hart
      · subst hne
        rw [hpc] at hg
        cases hg
        exact ⟨g, role, todo, by rw [goto_pc_same]; rfl, howned,
          fun hd => hnot (List.mem_cons_of_mem _ hd)⟩
      · refine ⟨g, role', todo', ?_, howned, hnot⟩
        rw [goto_pc_other _ _ hne]
        exact hg
  published hfull d hd := by
    refine fill_full ?_
    obtain heq | hfull := eq_or_full_of_fill hfull
    · exact hready heq.symm d hd
    · exact horder.published hfull d hd

/-- No action of a program that fits uses a static too early. -/
theorem act (horder : InOrder p s) (hagreed : p.Agreed) (hclear : ∀ c, s.cells c ≠ .garbage)
    {role : Role} {action : Action} {todo : List Action}
    (hpc : s.pc hart = .run role (action :: todo)) :
    InOrder p (s.act hart role action todo) := by
  obtain ⟨hlt, hboot, known, hfits, hknown⟩ : Legal p s hart (.run role (action :: todo)) :=
    hpc ▸ horder.legal hart
  have hgo : ∀ known', p.Fits role hart known' todo → (∀ c ∈ known', s.cells c = .full) →
      InOrder p (s.goto hart (.run role todo)) := by
    refine fun known' hfits' hknown' => horder.goto ⟨hlt, hboot, known', hfits', hknown'⟩ ?_
    rw [hpc]
    rintro _ _ ⟨⟩
    exact ⟨todo, rfl, List.subset_cons_self _ _⟩
  unfold System.act
  cases action with
  | callOnce c =>
    obtain ⟨hexclusive, hready, hfits⟩ := hfits
    simp only [if_neg (hclear c)]
    refine horder.fill hpc hfits hknown (fun h => ?_) fun h => absurd h hready
    exact absurd h (Bool.eq_false_iff.mp hexclusive)
  | publishOnce c =>
    obtain ⟨howned, hnot, hfits⟩ := hfits
    have hempty : s.cells c = .empty := by
      cases hcell : s.cells c with
      | garbage => exact absurd hcell (hclear c)
      | empty => rfl
      | full =>
        obtain ⟨g, role', todo', hg, howned', hnot'⟩ := horder.spent c howned.exclusive hcell
        have hsame : hart = g := by
          obtain heq | ⟨rfl, rfl⟩ := howned.hart_eq howned'
          · exact heq
          · have hchosen := (horder.legal g).chosen (Pc.leads_of_running hg)
            exact (hboot rfl).unique hagreed hchosen.2
        subst hsame
        rw [hpc] at hg
        cases hg
        exact absurd List.mem_cons_self hnot'
    simp only [if_pos hempty]
    refine horder.fill hpc hfits hknown (fun _ => ⟨howned, hnot⟩) fun h => absurd h howned.ne_ready
  | expect c =>
    obtain ⟨hc, hfits⟩ := hfits
    simp only [if_pos (hknown c hc)]
    exact hgo known hfits hknown
  | fallible => exact hgo known hfits hknown
  | markReady =>
    obtain ⟨hall, hfits⟩ := hfits
    exact horder.fill hpc hfits hknown nofun fun _ c hc => hknown c (hall c hc)
  | waitUntilReady =>
    simp only [if_neg (hclear _)]
    split
    next hready =>
      refine hgo (p.published ++ known) hfits.2 fun c hc => ?_
      exact (List.mem_append.mp hc).elim (horder.published hready c) (hknown c)
    next => exact horder

/-- A hart that does not run a program yet. -/
theorem goto_of_not_running (horder : InOrder p s) (hnot : (s.pc hart).running? = none)
    (hlegal : Legal p s hart pc) : InOrder p (s.goto hart pc) :=
  horder.goto hlegal fun _ _ hrun => nomatch hnot.symm.trans hrun

theorem clearWord (hgate : Gate p s) {word : Nat} (hpc : s.pc hart = .clear word) :
    InOrder p ((s.clearWord p word).goto hart (.clear (word + 1))) := by
  have hzero : s.bssReady = 0 := hgate.closed hart (by rw [hpc]; rfl)
  refine of_unreleased (fun c hc => ?_) fun g => ?_
  · change (if c.inBss ∧ p.bssWord c = word then Cell.empty else s.cells c) = .full at hc
    split at hc
    · cases hc
    · exact hgate.unfilled hzero c hc
  · by_cases hne : g = hart
    · rw [hne, goto_pc_same]
      rfl
    · rw [goto_pc_other _ _ hne]
      exact Bool.eq_false_iff.mpr fun hg => hgate.past g hg hzero

theorem decode (horder : InOrder p s) (hpc : s.pc hart = .decode) :
    let selection := isSelectedBootHart xlen (p.selectedHart hart) s.bootHartId hart
    InOrder p ({ s with bootHartId := selection.2 }.goto hart
      (if selection.1 then .claim else .run .secondary (p.program .secondary hart))) := by
  intro selection
  have hlt : hart < numHartMax := by
    have hlegal := horder.legal hart
    rwa [hpc] at hlegal
  have hselected : InOrder p { s with bootHartId := selection.2 } :=
    { legal := fun g => (horder.legal g).mono (fun _ => id) Platform.Chosen.isSelectedBootHart
      spent := horder.spent
      published := horder.published }
  refine hselected.goto_of_not_running (congrArg Pc.running? hpc) ?_
  split
  next hboot => exact ⟨hlt, Platform.chosen_of_isSelectedBootHart hboot⟩
  next => exact ⟨hlt, nofun, [], p.fits_program .secondary hlt, fun c hc => nomatch hc⟩

theorem proceed {s' : System} (horder : InOrder p s) (hgate : Gate p s) (hagreed : p.Agreed)
    (hstep : s.proceed p hart = some s') : InOrder p s' := by
  have hlegal := horder.legal hart
  unfold System.proceed at hstep
  split at hstep
  next hpc =>
    cases hstep
    exact horder.goto_of_not_running (congrArg Pc.running? hpc) trivial
  next hpc =>
    cases hstep
    refine (horder.withEntry _ _ _).goto_of_not_running (congrArg Pc.running? hpc) ?_
    split <;> trivial
  next hpc =>
    cases hstep
    exact (horder.withEntry _ _ _).goto_of_not_running (congrArg Pc.running? hpc) trivial
  next word hpc =>
    split at hstep <;> cases hstep
    · exact clearWord hgate hpc
    · exact horder.goto_of_not_running (congrArg Pc.running? hpc) trivial
  next hpc =>
    cases hstep
    exact (horder.withEntry _ _ _).goto_of_not_running (congrArg Pc.running? hpc) trivial
  next hpc =>
    split at hstep <;> cases hstep
    · exact horder
    · exact horder.goto_of_not_running (congrArg Pc.running? hpc) trivial
  next warm hpc =>
    split at hstep <;> cases hstep
    next hlt =>
      refine horder.goto_of_not_running (congrArg Pc.running? hpc) ?_
      cases warm
      · exact hlt
      · exact ⟨hlt, nofun, [], p.fits_program .warm hlt, fun c hc => nomatch hc⟩
    next => exact horder.goto_of_not_running (congrArg Pc.running? hpc) trivial
  next hpc =>
    cases hstep
    exact horder.decode hpc
  next hpc =>
    cases hstep
    rw [hpc] at hlegal
    refine horder.goto_of_not_running (congrArg Pc.running? hpc) ?_
    exact ⟨hlegal.1, fun _ => hlegal.2, [], p.fits_program .boot hlegal.1, fun c hc => nomatch hc⟩
  next role hpc =>
    cases hstep
    rw [hpc] at hlegal
    obtain ⟨hlt, hboot, known, hfits, hknown⟩ := hlegal
    refine horder.goto ⟨hlt, fun hrole => ⟨hboot hrole, hknown _ (hfits hrole)⟩⟩ ?_
    rw [hpc]
    rintro _ _ ⟨⟩
    exact ⟨[], rfl, List.Subset.refl _⟩
  next role action todo hpc =>
    cases hstep
    exact horder.act hagreed (hgate.ready (hgate.past hart (by rw [hpc]; rfl))).2 hpc
  next => cases hstep
  next => cases hstep
  next => cases hstep
  next => cases hstep

theorem of_step {label : Nat × Choice} {s' : System} (horder : InOrder p s) (hgate : Gate p s)
    (hagreed : p.Agreed) (hstep : p.Step s label s') : InOrder p s' := by
  obtain ⟨hart, choice⟩ := label
  have hlegal := horder.legal hart
  unfold Platform.Step System.step at hstep
  split at hstep <;> split at hstep <;> try cases hstep
  next => exact horder.proceed hgate hagreed hstep
  next =>
    unfold System.fail at hstep
    split at hstep
    next hpc =>
      cases hstep
      rw [hpc] at hlegal
      exact horder.goto_of_not_running (congrArg Pc.running? hpc) ⟨hlegal.1, fun _ => hlegal.2⟩
    next role todo hpc =>
      cases hstep
      rw [hpc] at hlegal
      refine horder.goto ⟨hlegal.1, hlegal.2.1⟩ ?_
      rw [hpc]
      rintro _ _ ⟨⟩
      exact ⟨todo, rfl, List.subset_cons_self _ _⟩
    next => cases hstep
  next =>
    unfold System.hardwareReset at hstep
    split at hstep
    next hpc =>
      split at hstep <;> cases hstep
      exact horder.goto_of_not_running (congrArg Pc.running? hpc) trivial
    next => cases hstep

end InOrder

end System

/-! ## Whole runs -/

namespace System

variable {p : Platform xlen} {s s' : System} {hart : Nat}

theorem gate_init (p : Platform xlen) : Gate p (init xlen) where
  outside _ _ := rfl
  count := by
    exact Finset.card_eq_zero.mpr (Finset.filter_eq_empty_iff.mpr fun _ _ => nofun)
  single _ _ h := nomatch h
  raced _ := rfl
  someone h := absurd rfl h
  closed _ h := nomatch h
  ready h := absurd rfl h
  past _ h := nomatch h
  unfilled _ c h := by
    change (if c.inBss then Cell.garbage else .empty) = .full at h
    split at h <;> cases h
  clear _ _ h := nomatch h
  release _ h := nomatch h
  bss c h := by
    change (if c.inBss then Cell.garbage else .empty) = .garbage at h
    split at h
    next hbss => exact hbss
    next => cases h

theorem inv_of_reachable (hagreed : p.Agreed) (hs : Reachable (Initial xlen) p.Step s) :
    Gate p s ∧ InOrder p s := by
  refine Reachable.invariant (P := fun s => Gate p s ∧ InOrder p s) ?_ ?_ hs
  · rintro s rfl
    refine ⟨gate_init p, InOrder.of_unreleased ?_ fun _ => rfl⟩
    exact (gate_init p).unfilled rfl
  · rintro s label s' ⟨hgate, horder⟩ hstep
    exact ⟨hgate.of_step hstep, horder.of_step hgate hagreed hstep⟩

/-- What a step leaves alone: the other harts, a released BSS and a filled static. -/
structure Frame (s s' : System) (hart : Nat) : Prop where
  other : ∀ g ≠ hart, s'.pc g = s.pc g
  bssReady : s.bssReady ≠ 0 → s'.bssReady ≠ 0
  full : ∀ c, s.cells c = .full → s'.cells c = .full

theorem frame_goto (s : System) (hart : Nat) (pc : Pc) : Frame s (s.goto hart pc) hart where
  other _ hne := goto_pc_other s pc hne
  bssReady := id
  full _ := id

theorem frame_fill_goto (s : System) (c : Static) (hart : Nat) (pc : Pc) :
    Frame s ((s.fill c).goto hart pc) hart where
  other _ hne := goto_pc_other _ pc hne
  bssReady := id
  full _ := fill_full

theorem frame_refl (s : System) (hart : Nat) : Frame s s hart := ⟨fun _ _ => rfl, id, fun _ => id⟩

theorem frame_act (s : System) (hart : Nat) (role : Role) (action : Action) (todo : List Action) :
    Frame s (s.act hart role action todo) hart := by
  unfold System.act
  cases action <;> dsimp only <;> repeat' split
  all_goals
    first
    | exact frame_goto s hart _
    | exact frame_fill_goto s _ hart _
    | exact frame_refl s hart

theorem Gate.frame_proceed (hgate : Gate p s) (hstep : s.proceed p hart = some s') :
    Frame s s' hart := by
  unfold System.proceed at hstep
  split at hstep
  next => cases hstep; exact frame_goto s hart _
  next => cases hstep; exact ⟨fun g hne => goto_pc_other _ _ hne, id, fun _ => id⟩
  next => cases hstep; exact ⟨fun g hne => goto_pc_other _ _ hne, id, fun _ => id⟩
  next word hpc =>
    have hzero := hgate.closed hart (by rw [hpc]; rfl)
    split at hstep <;> cases hstep
    · exact ⟨fun g hne => goto_pc_other _ _ hne, id, fun c hc => absurd hc (hgate.unfilled hzero c)⟩
    · exact frame_goto s hart _
  next hpc =>
    have hzero := hgate.closed hart (by rw [hpc]; rfl)
    cases hstep
    exact ⟨fun g hne => goto_pc_other _ _ hne, fun hready => absurd hzero hready, fun _ => id⟩
  next =>
    split at hstep <;> cases hstep
    · exact frame_refl s hart
    · exact frame_goto s hart _
  next => split at hstep <;> cases hstep <;> exact frame_goto s hart _
  next => cases hstep; exact ⟨fun g hne => goto_pc_other _ _ hne, id, fun _ => id⟩
  next => cases hstep; exact frame_goto s hart _
  next => cases hstep; exact frame_goto s hart _
  next => cases hstep; exact frame_act s hart _ _ _
  next => cases hstep
  next => cases hstep
  next => cases hstep
  next => cases hstep

theorem Gate.frame (hgate : Gate p s) {label : Nat × Choice} (hstep : p.Step s label s') :
    Frame s s' label.1 := by
  obtain ⟨hart, choice⟩ := label
  unfold Platform.Step System.step at hstep
  split at hstep <;> split at hstep <;> try cases hstep
  next => exact hgate.frame_proceed hstep
  next =>
    unfold System.fail at hstep
    split at hstep <;> cases hstep <;> exact frame_goto s hart _
  next =>
    unfold System.hardwareReset at hstep
    split at hstep
    next => split at hstep <;> cases hstep; exact frame_goto s hart _
    next => cases hstep

/-! ### The winner releases BSS -/

/-- The steps that the winner still makes before the last one. -/
def workLeft (p : Platform xlen) : Pc → Nat
  | .relocate => p.bssWords + 2
  | .clear word => p.bssWords - word + 1
  | _ => 0

theorem mem_harts (hgate : Gate p s) (hne : s.pc hart ≠ .reset) : hart ∈ p.harts := by
  by_contra hmem
  exact hne (hgate.outside hart hmem)

theorem step_proceed (hmem : hart ∈ p.harts) (hstep : s.proceed p hart = some s') :
    p.Step s (hart, .proceed) s' :=
  (if_pos hmem).trans hstep

theorem winner_step (hgate : Gate p s) (hwin : (s.pc hart).winning = true) {choice : Choice}
    (hstep : p.Step s (hart, choice) s') :
    s'.bssReady ≠ 0 ∨
      ((s'.pc hart).winning = true ∧ workLeft p (s'.pc hart) < workLeft p (s.pc hart)) := by
  have hzero := hgate.closed hart hwin
  unfold Platform.Step System.step at hstep
  split at hstep <;> split at hstep <;> try cases hstep
  next =>
    unfold System.proceed at hstep
    cases hpc : s.pc hart with
    | relocate =>
      simp only [hpc, Option.some.injEq] at hstep
      subst hstep
      refine .inr ?_
      rw [goto_pc_same]
      exact ⟨rfl, Nat.lt_succ_self _⟩
    | clear word =>
      simp only [hpc] at hstep
      split at hstep <;> cases hstep <;> refine .inr ?_ <;> rw [goto_pc_same]
      · refine ⟨rfl, ?_⟩
        simp only [workLeft]
        omega
      · exact ⟨rfl, Nat.succ_pos _⟩
    | release =>
      simp only [hpc, Option.some.injEq] at hstep
      subst hstep
      refine .inl ?_
      change s.bssReady + 1 ≠ 0
      rw [hzero]
      decide
    | _ => rw [hpc] at hwin; cases hwin
  next =>
    unfold System.fail at hstep
    split at hstep
    next hpc => rw [hpc] at hwin; cases hwin
    next hpc => rw [hpc] at hwin; cases hwin
    next => cases hstep
  next =>
    unfold System.hardwareReset at hstep
    split at hstep
    next hpc => rw [hpc] at hwin; cases hwin
    next => cases hstep

theorem step_of_winning (hgate : Gate p s) (hwin : (s.pc hart).winning = true) :
    ∃ s', p.Step s (hart, .proceed) s' := by
  have hmem : hart ∈ p.harts := mem_harts hgate fun hpc => by rw [hpc] at hwin; cases hwin
  refine (?_ : ∃ s', s.proceed p hart = some s').imp fun s' => step_proceed hmem
  unfold System.proceed
  cases hpc : s.pc hart with
  | relocate => exact ⟨_, rfl⟩
  | clear word =>
    dsimp only
    split <;> exact ⟨_, rfl⟩
  | release => exact ⟨_, rfl⟩
  | _ => rw [hpc] at hwin; cases hwin

/-! ### A hart comes to its program -/

/-- The steps that a hart behind label 5 still makes before the last one up to its program. -/
def entryLeft : Pc → Nat
  | .locate _ => 2
  | .decode => 1
  | _ => 0

/-- A hart that has no stack, or that has come to its program. -/
def Entered (s : System) (hart : Nat) : Prop :=
  (∃ warm, s.pc hart = .failStop warm) ∨ ∃ role todo, (s.pc hart).running? = some (role, todo)

theorem entered_goto_run (s : System) (hart : Nat) (role : Role) (todo : List Action) :
    (s.goto hart (.run role todo)).Entered hart :=
  .inr ⟨role, todo, by rw [goto_pc_same]; rfl⟩

theorem step_of_entering (hgate : Gate p s) (hentering : (s.pc hart).entering = true) :
    ∃ s', p.Step s (hart, .proceed) s' := by
  have hmem : hart ∈ p.harts := mem_harts hgate fun hpc => by rw [hpc] at hentering; cases hentering
  refine (?_ : ∃ s', s.proceed p hart = some s').imp fun s' => step_proceed hmem
  unfold System.proceed
  cases hpc : s.pc hart with
  | locate warm =>
    dsimp only
    split <;> exact ⟨_, rfl⟩
  | decode | claim => exact ⟨_, rfl⟩
  | _ => rw [hpc] at hentering; cases hentering

theorem entering_step (hentering : (s.pc hart).entering = true) {choice : Choice}
    (hstep : p.Step s (hart, choice) s') :
    s'.Entered hart ∨
      ((s'.pc hart).entering = true ∧ entryLeft (s'.pc hart) < entryLeft (s.pc hart)) := by
  unfold Platform.Step System.step at hstep
  split at hstep <;> split at hstep <;> try cases hstep
  next =>
    unfold System.proceed at hstep
    cases hpc : s.pc hart with
    | locate warm =>
      simp only [hpc] at hstep
      split at hstep <;> cases hstep
      · cases warm
        · exact .inr (by simp [Pc.entering, entryLeft])
        · exact .inl (entered_goto_run s hart ..)
      · exact .inl (.inl ⟨warm, goto_pc_same ..⟩)
    | decode =>
      simp only [hpc, Option.some.injEq] at hstep
      subst hstep
      split
      · rw [goto_pc_same]
        exact .inr ⟨rfl, Nat.zero_lt_one⟩
      · exact .inl (entered_goto_run _ hart ..)
    | claim =>
      simp only [hpc, Option.some.injEq] at hstep
      subst hstep
      exact .inl (entered_goto_run s hart ..)
    | _ => rw [hpc] at hentering; cases hentering
  next =>
    unfold System.fail at hstep
    split at hstep
    next =>
      cases hstep
      exact .inl (.inr ⟨.boot, p.program .boot hart, by rw [goto_pc_same]; rfl⟩)
    next hpc => rw [hpc] at hentering; cases hentering
    next => cases hstep
  next =>
    unfold System.hardwareReset at hstep
    split at hstep
    next hpc => rw [hpc] at hentering; cases hentering
    next => cases hstep

/-! ### A running hart finishes or stops -/

theorem act_pc (s : System) (hart : Nat) (role : Role) (action : Action) (todo : List Action) :
    (s.act hart role action todo).pc hart = .run role todo ∨
      (s.act hart role action todo).pc hart = .misused role action ∨
      (action = .waitUntilReady ∧ s.cells .ready ≠ .full ∧ s.act hart role action todo = s) := by
  unfold System.act
  cases action <;> dsimp only <;> repeat' split
  all_goals
    first
    | exact .inl (goto_pc_same ..)
    | exact .inr (.inl (goto_pc_same ..))
    | exact .inr (.inr ⟨rfl, ‹_›, rfl⟩)

theorem run_step (horder : InOrder p s) (horder' : InOrder p s') {role : Role}
    {todo : List Action} (hpc : s.pc hart = .run role todo)
    (hready : role = .boot ∨ s.cells .ready = .full) {choice : Choice}
    (hstep : p.Step s (hart, choice) s') :
    (s'.pc hart = .finish role ∨ ∃ todo', s'.pc hart = .stopped role todo') ∨
      ∃ todo', s'.pc hart = .run role todo' ∧ todo'.length < todo.length := by
  unfold Platform.Step System.step at hstep
  split at hstep <;> split at hstep <;> try cases hstep
  next =>
    cases todo with
    | nil =>
      simp only [System.proceed, hpc, Option.some.injEq] at hstep
      subst hstep
      exact .inl (.inl (goto_pc_same ..))
    | cons action todo =>
      simp only [System.proceed, hpc, Option.some.injEq] at hstep
      subst hstep
      refine .inr ⟨todo, ?_, Nat.lt_succ_self _⟩
      obtain hrun | hmisused | ⟨rfl, hnot, -⟩ := act_pc s hart role action todo
      · exact hrun
      · have hlegal := horder'.legal hart
        rw [hmisused] at hlegal
        exact hlegal.elim
      · obtain ⟨-, -, known, hfits, -⟩ : Legal p s hart (.run role (.waitUntilReady :: todo)) :=
          hpc ▸ horder.legal hart
        exact (hready.elim hfits.1 hnot).elim
  next =>
    unfold System.fail at hstep
    split at hstep
    next hclaim => cases hpc.symm.trans hclaim
    next role' todo' hrun =>
      cases hpc.symm.trans hrun
      cases hstep
      exact .inl (.inr ⟨todo', goto_pc_same ..⟩)
    next => cases hstep
  next =>
    unfold System.hardwareReset at hstep
    split at hstep
    next hreset => cases hpc.symm.trans hreset
    next => cases hstep

theorem step_of_run (hgate : Gate p s) {role : Role} {todo : List Action}
    (hpc : s.pc hart = .run role todo) : ∃ s', p.Step s (hart, .proceed) s' := by
  have hmem : hart ∈ p.harts := mem_harts hgate fun hreset => by cases hpc.symm.trans hreset
  refine (?_ : ∃ s', s.proceed p hart = some s').imp fun s' => step_proceed hmem
  unfold System.proceed
  cases todo <;> simp only [hpc] <;> exact ⟨_, rfl⟩

theorem released_of_run (hgate : Gate p s) (hwin : (s.pc hart).winning = true)
    {labels : List (Nat × Choice)} (hrun : Run p.Step s labels s')
    (hsteps : p.bssWords + 2 < labels.countP (·.1 == hart)) : s'.bssReady ≠ 0 := by
  have hle : workLeft p (s.pc hart) ≤ p.bssWords + 2 := by
    cases s.pc hart <;> simp only [workLeft] <;> omega
  refine (hrun.reaches_of_rank (P := fun s => Gate p s ∧ (s.pc hart).winning = true)
    (Q := fun s => Gate p s ∧ s.bssReady ≠ 0) (·.1 == hart) (fun s => workLeft p (s.pc hart))
    ?_ ?_ ?_ ⟨hgate, hwin⟩ (Nat.lt_of_le_of_lt hle hsteps)).2
  · exact fun s label s' h hstep => ⟨h.1.of_step hstep, (h.1.frame hstep).bssReady h.2⟩
  · rintro s ⟨g, choice⟩ s' ⟨hgate, hwin⟩ hstep hown
    obtain rfl := beq_iff_eq.mp hown
    have hgate' := hgate.of_step hstep
    exact (winner_step hgate hwin hstep).imp (fun h => ⟨hgate', h⟩) fun h => ⟨⟨hgate', h.1⟩, h.2⟩
  · rintro s ⟨g, choice⟩ s' ⟨hgate, hwin⟩ hstep hother
    have hne : hart ≠ g := fun heq => beq_eq_false_iff_ne.mp hother heq.symm
    have hsame := (hgate.frame hstep).other hart hne
    refine .inr ⟨⟨hgate.of_step hstep, ?_⟩, ?_⟩
    · rw [hsame, hwin]
    · rw [hsame]

theorem running_step (horder' : InOrder p s') {role : Role} {todo : List Action}
    (hrunning : (s.pc hart).running? = some (role, todo)) {choice : Choice}
    (hstep : p.Step s (hart, choice) s') :
    ∃ todo', (s'.pc hart).running? = some (role, todo') := by
  unfold Platform.Step System.step at hstep
  split at hstep <;> split at hstep <;> try cases hstep
  next =>
    unfold System.proceed at hstep
    cases hpc : s.pc hart with
    | run role' todo' =>
      obtain rfl : role' = role := by
        rw [hpc] at hrunning
        exact (Prod.mk.inj (Option.some.inj hrunning)).1
      cases todo' with
      | nil =>
        simp only [hpc, Option.some.injEq] at hstep
        subst hstep
        exact ⟨[], by rw [goto_pc_same]; rfl⟩
      | cons action rest =>
        simp only [hpc, Option.some.injEq] at hstep
        subst hstep
        obtain hrun | hmisused | ⟨-, -, hsame⟩ := act_pc s hart role' action rest
        · exact ⟨rest, by rw [hrun]; rfl⟩
        · have hlegal := horder'.legal hart
          rw [hmisused] at hlegal
          exact hlegal.elim
        · rw [hsame, hpc]
          exact ⟨action :: rest, rfl⟩
    | finish role' | stopped role' todo' =>
      simp only [hpc, reduceCtorEq] at hstep
    | _ => rw [hpc] at hrunning; cases hrunning
  next =>
    unfold System.fail at hstep
    split at hstep
    next hpc =>
      rw [hpc] at hrunning
      cases hrunning
    next role' rest hpc =>
      cases hstep
      rw [hpc] at hrunning
      cases hrunning
      exact ⟨rest, by rw [goto_pc_same]; rfl⟩
    next => cases hstep
  next =>
    unfold System.hardwareReset at hstep
    split at hstep
    next hpc =>
      rw [hpc] at hrunning
      cases hrunning
    next => cases hstep

theorem Entered.of_step (hgate : Gate p s) (horder' : InOrder p s') (h : s.Entered hart)
    {label : Nat × Choice} (hstep : p.Step s label s') : s'.Entered hart := by
  obtain ⟨g, choice⟩ := label
  by_cases hne : hart = g
  · subst hne
    obtain ⟨warm, hpc⟩ | ⟨role, todo, hrunning⟩ := h
    · unfold Platform.Step System.step System.proceed System.fail System.hardwareReset at hstep
      cases choice <;> simp only [hpc, ite_self, reduceCtorEq] at hstep
    · exact .inr ⟨role, running_step horder' hrunning hstep⟩
  · unfold Entered
    rwa [(hgate.frame hstep).other hart hne]

/-- Three own steps bring a hart from label 5 to its program, or to the stop of a hart without a
stack. -/
theorem entered_of_run (hagreed : p.Agreed) (hgate : Gate p s) (horder : InOrder p s)
    (hentering : (s.pc hart).entering = true) {labels : List (Nat × Choice)}
    (hrun : Run p.Step s labels s') (hsteps : 2 < labels.countP (·.1 == hart)) :
    s'.Entered hart := by
  have hle : entryLeft (s.pc hart) ≤ 2 := by
    cases s.pc hart <;> simp only [entryLeft] <;> omega
  refine (hrun.reaches_of_rank
    (P := fun s => (Gate p s ∧ InOrder p s) ∧ (s.pc hart).entering = true)
    (Q := fun s => (Gate p s ∧ InOrder p s) ∧ s.Entered hart) (·.1 == hart)
    (fun s => entryLeft (s.pc hart)) ?_ ?_ ?_ ⟨⟨hgate, horder⟩, hentering⟩
    (Nat.lt_of_le_of_lt hle hsteps)).2
  · rintro s label s' ⟨⟨hgate, horder⟩, hentered⟩ hstep
    have horder' := horder.of_step hgate hagreed hstep
    exact ⟨⟨hgate.of_step hstep, horder'⟩, hentered.of_step hgate horder' hstep⟩
  · rintro s ⟨g, choice⟩ s' ⟨⟨hgate, horder⟩, hentering⟩ hstep hown
    obtain rfl := beq_iff_eq.mp hown
    have hinv' := And.intro (hgate.of_step hstep) (horder.of_step hgate hagreed hstep)
    exact (entering_step hentering hstep).imp (fun h => ⟨hinv', h⟩) fun h => ⟨⟨hinv', h.1⟩, h.2⟩
  · rintro s ⟨g, choice⟩ s' ⟨⟨hgate, horder⟩, hentering⟩ hstep hother
    have hne : hart ≠ g := fun heq => beq_eq_false_iff_ne.mp hother heq.symm
    have hsame := (hgate.frame hstep).other hart hne
    refine .inr ⟨⟨⟨hgate.of_step hstep, horder.of_step hgate hagreed hstep⟩, ?_⟩, ?_⟩
    · rw [hsame, hentering]
    · rw [hsame]

/-- A hart that has finished its program or stopped in it. -/
def Settled (s : System) (hart : Nat) (role : Role) : Prop :=
  (∃ todo, s.pc hart = .stopped role todo) ∨ (s.pc hart = .finish role ∧ s.cells .ready = .full)

theorem Settled.of_step (hgate : Gate p s) {role : Role} (h : s.Settled hart role)
    {label : Nat × Choice} (hstep : p.Step s label s') : s'.Settled hart role := by
  have hframe := hgate.frame hstep
  have hsame : s'.pc hart = s.pc hart := by
    obtain ⟨g, choice⟩ := label
    by_cases hne : hart = g
    · subst hne
      unfold Platform.Step System.step System.proceed System.fail System.hardwareReset at hstep
      obtain ⟨todo, hpc⟩ | ⟨hpc, -⟩ := h <;>
        cases choice <;> simp only [hpc, ite_self, reduceCtorEq] at hstep
    · exact hframe.other hart hne
  refine h.imp (fun ⟨todo, hpc⟩ => ⟨todo, hsame.trans hpc⟩) fun ⟨hpc, hready⟩ => ?_
  exact ⟨hsame.trans hpc, hframe.full .ready hready⟩

/-- The actions that a hart still has to make. -/
def actionsLeft : Pc → Nat
  | .run _ todo => todo.length
  | _ => 0

theorem settled_of_run (hagreed : p.Agreed) (hgate : Gate p s) (horder : InOrder p s) {role : Role}
    {todo : List Action} (hpc : s.pc hart = .run role todo)
    (hready : role = .boot ∨ s.cells .ready = .full) {labels : List (Nat × Choice)}
    (hrun : Run p.Step s labels s') (hsteps : todo.length < labels.countP (·.1 == hart)) :
    s'.Settled hart role := by
  refine (hrun.reaches_of_rank
    (P := fun s => (Gate p s ∧ InOrder p s) ∧ (role = .boot ∨ s.cells .ready = .full) ∧
      ∃ todo, s.pc hart = .run role todo)
    (Q := fun s => Gate p s ∧ s.Settled hart role) (·.1 == hart)
    (fun s => actionsLeft (s.pc hart)) ?_ ?_ ?_ ⟨⟨hgate, horder⟩, hready, todo, hpc⟩ ?_).2
  · exact fun s label s' h hstep => ⟨h.1.of_step hstep, h.2.of_step h.1 hstep⟩
  · rintro s ⟨g, choice⟩ s' ⟨⟨hgate, horder⟩, hready, todo, hpc⟩ hstep hown
    obtain rfl := beq_iff_eq.mp hown
    have hgate' := hgate.of_step hstep
    have horder' := horder.of_step hgate hagreed hstep
    have hready' := hready.imp_right ((hgate.frame hstep).full .ready)
    obtain (hpc' | hpc') | ⟨todo', hpc', hlt⟩ := run_step horder horder' hpc hready hstep
    · refine .inl ⟨hgate', .inr ⟨hpc', hready'.elim (fun hrole => ?_) id⟩⟩
      have hlegal := horder'.legal g
      rw [hpc'] at hlegal
      exact (hlegal.2 hrole).2
    · exact .inl ⟨hgate', .inl hpc'⟩
    · refine .inr ⟨⟨⟨hgate', horder'⟩, hready', todo', hpc'⟩, ?_⟩
      rw [hpc', hpc]
      exact hlt
  · rintro s ⟨g, choice⟩ s' ⟨⟨hgate, horder⟩, hready, todo, hpc⟩ hstep hother
    have hne : hart ≠ g := fun heq => beq_eq_false_iff_ne.mp hother heq.symm
    have hframe := hgate.frame hstep
    have hsame := hframe.other hart hne
    refine .inr ⟨⟨⟨hgate.of_step hstep, horder.of_step hgate hagreed hstep⟩,
      hready.imp_right (hframe.full .ready), todo, hsame.trans hpc⟩, ?_⟩
    rw [hsame]
  · rw [hpc]
    exact hsteps

/-! ## The main results -/

/-- Two harts, of which `DynamicInfo` designates hart one, and a BSS of one word. -/
def designatedPlatform : Platform .rv64 where
  harts := {0, 1}
  harts_few := by decide
  bssWords := 1
  bssWord _ := 0
  bssWord_lt _ := Nat.zero_lt_one
  dynamic := true
  dynamicInfoAddress _ := 0x80100000
  memory _ := ⟨magic, 2, 0x80200000, 1, 0, 1⟩
  enabled := [0, 1]
  enabled_lt := by decide
  hasIpi := true
  hasTimer := true
  hasWake := false
  usesImsic := false

theorem designatedPlatform_agreed : designatedPlatform.Agreed := fun _ _ => rfl

/-- Hart zero wins the race and clears BSS; hart one waits for it and is chosen. -/
def hartOneChosen : List (Nat × Choice) :=
  [(0, .proceed), (1, .proceed), (0, .proceed), (1, .proceed), (0, .proceed), (1, .proceed),
    (0, .proceed), (0, .proceed), (0, .proceed), (1, .proceed), (1, .proceed), (1, .proceed)]

theorem hartOneChosen_run : ∃ s, Reachable (Initial .rv64) designatedPlatform.Step s ∧
    s.pc 1 = .claim := by
  obtain ⟨s, hexec, hpc⟩ : ∃ s,
      hartOneChosen.foldlM (fun s label => s.step designatedPlatform label.1 label.2) (init .rv64) =
        some s ∧ s.pc 1 = .claim := ⟨_, rfl, rfl⟩
  exact ⟨s, ⟨_, _, rfl, Run.of_foldlM (fun _ _ _ h => h) hexec⟩, hpc⟩

/-- Where the previous stage passes one handoff to all harts, at most one hart
leads the boot: the designated one where `DynamicInfo` designates one, and it has
a stack. -/
theorem one_boot_hart {p : Platform xlen} (hagreed : p.Agreed) {s : System}
    (hs : Reachable (Initial xlen) p.Step s) {h : Nat} (hleads : (s.pc h).leads = true) :
    h < numHartMax ∧ (∀ g, (s.pc g).leads = true → g = h) ∧
      ∀ hartId, p.selectedHart h = some hartId → hartId ≠ xlen.usizeMax → h = hartId := by
  obtain ⟨-, horder⟩ := inv_of_reachable hagreed hs
  obtain ⟨hlt, hchosen⟩ := (horder.legal h).chosen hleads
  refine ⟨hlt, fun g hg => ?_, fun hartId hselected hmax => ?_⟩
  · exact ((horder.legal g).chosen hg).2.unique hagreed hchosen
  · simpa only [Platform.Chosen, hselected, if_neg hmax] using hchosen

theorem one_boot_hart_designated : ∃ s, Reachable (Initial .rv64) designatedPlatform.Step s ∧
    (s.pc 1).leads = true ∧ ∀ g, (s.pc g).leads = true → g = 1 := by
  obtain ⟨s, hs, hpc⟩ := hartOneChosen_run
  have hleads : (s.pc 1).leads = true := by rw [hpc]; rfl
  exact ⟨s, hs, hleads, (one_boot_hart designatedPlatform_agreed hs hleads).2.1⟩

/-- No hart uses BSS before the image is relocated and all of BSS is cleared.
Where the previous stage passes one handoff to all harts, so that one hart leads,
no static is used before it is filled, and `READY` stands for all services. -/
theorem statics_in_order {p : Platform xlen} (hagreed : p.Agreed) {s : System}
    (hs : Reachable (Initial xlen) p.Step s) :
    (∀ h, (s.pc h).past = true → s.relocated = true ∧ ∀ c, s.cells c ≠ .garbage) ∧
    (∀ h role action, s.pc h ≠ .misused role action) ∧
    (s.cells .ready = .full → ∀ c ∈ p.published, s.cells c = .full) := by
  obtain ⟨hgate, horder⟩ := inv_of_reachable hagreed hs
  refine ⟨fun h hpast => hgate.ready (hgate.past h hpast), fun h role action hpc => ?_,
    horder.published⟩
  have hlegal := horder.legal h
  rwa [hpc] at hlegal

theorem statics_in_order_designated : ∃ s, Reachable (Initial .rv64) designatedPlatform.Step s ∧
    s.relocated = true ∧ ∀ c, s.cells c ≠ .garbage := by
  obtain ⟨s, hs, hpc⟩ := hartOneChosen_run
  exact ⟨s, hs, (statics_in_order designatedPlatform_agreed hs).1 1 (by rw [hpc]; rfl)⟩

/-- A hart that waits for BSS has a winner at work for it, unless BSS is released;
the winner releases it within its own steps. Behind label 5 a hart comes to its
program within its own steps, unless it has no stack, and there a boot hart, or
any hart once `READY` is set, finishes or stops within its own. A boot hart that
finishes has set `READY`. All of this rests on a handoff that all harts agree on. -/
theorem boot_progress {p : Platform xlen} (hagreed : p.Agreed) {s : System}
    (hs : Reachable (Initial xlen) p.Step s) :
    (∀ h, s.pc h = .waitBss → s.bssReady ≠ 0 ∨ ∃ g, (s.pc g).winning = true) ∧
    (∀ h, (s.pc h).winning = true → (∃ s', p.Step s (h, .proceed) s') ∧
      ∀ labels s', Run p.Step s labels s' → p.bssWords + 2 < labels.countP (·.1 == h) →
        s'.bssReady ≠ 0) ∧
    (∀ h, (s.pc h).entering = true → (∃ s', p.Step s (h, .proceed) s') ∧
      ∀ labels s', Run p.Step s labels s' → 2 < labels.countP (·.1 == h) →
        (∃ warm, s'.pc h = .failStop warm) ∨
          ∃ role todo, (s'.pc h).running? = some (role, todo)) ∧
    ∀ h role todo, s.pc h = .run role todo → (role = .boot ∨ s.cells .ready = .full) →
      (∃ s', p.Step s (h, .proceed) s') ∧
      ∀ labels s', Run p.Step s labels s' → todo.length < labels.countP (·.1 == h) →
        (∃ todo', s'.pc h = .stopped role todo') ∨
          (s'.pc h = .finish role ∧ s'.cells .ready = .full) := by
  obtain ⟨hgate, horder⟩ := inv_of_reachable hagreed hs
  refine ⟨fun h hpc => ?_, fun h hwin => ⟨step_of_winning hgate hwin, ?_⟩,
    fun h hentering => ⟨step_of_entering hgate hentering, ?_⟩,
    fun h role todo hpc hready => ⟨step_of_run hgate hpc, ?_⟩⟩
  · refine hgate.someone fun hzero => ?_
    have hnot := hgate.not_elected hzero h
    rw [hpc] at hnot
    cases hnot
  · exact fun labels s' hrun hsteps => released_of_run hgate hwin hrun hsteps
  · exact fun labels s' hrun hsteps => entered_of_run hagreed hgate horder hentering hrun hsteps
  · exact fun labels s' hrun hsteps => settled_of_run hagreed hgate horder hpc hready hrun hsteps

theorem boot_progress_designated : ∃ s, Reachable (Initial .rv64) designatedPlatform.Step s ∧
    ∀ labels s', Run designatedPlatform.Step s labels s' → 38 < labels.countP (·.1 == 1) →
      s'.Settled 1 .boot := by
  obtain ⟨s, hs, hpc⟩ := hartOneChosen_run
  have hstep : s.proceed designatedPlatform 1 =
      some (s.goto 1 (.run .boot (designatedPlatform.program .boot 1))) := by
    rw [System.proceed, hpc]
  have hs' := hs.run (.cons (step_proceed (by decide) hstep) (.nil _))
  have hlength : (designatedPlatform.program .boot 1).length = 38 := by decide
  refine ⟨_, hs', fun labels s' hrun hsteps => ?_⟩
  exact ((boot_progress designatedPlatform_agreed hs').2.2.2 1 .boot _ (goto_pc_same ..) (.inl rfl)).2
    labels s' hrun (hlength ▸ hsteps)

end System

end RustSbi.Firmware
