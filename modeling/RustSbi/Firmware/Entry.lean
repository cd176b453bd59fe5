import RustSbi.Target
import RustSbi.Lib.Transition

/-!
Firmware entry on any number of harts (`entry/start.S`, `firmware/mod.rs`,
`main.rs`, `platform/boot.rs`, `platform/state.rs`): the race for relocation and
the clearing of BSS, the selection of the boot hart, the publication of the
shared statics by the boot hart and the other harts that wait for it. Every
access of a shared word or static is a step of its own. The race has one winner,
and no other hart comes near BSS before the winner is done with it.
-/

namespace RustSbi.Firmware

open Transition

variable {xlen : Xlen}

/-! ## The selection of the boot hart -/

/-- `DynamicInfo`, as the previous stage passes it by its address in `a2`. -/
structure DynamicInfo where
  magic : Nat
  version : Nat
  nextAddr : Nat
  nextMode : Nat
  options : Nat
  bootHart : Nat

/-- `ReadError`. -/
structure ReadError where
  invalidAddress : Option Nat
  invalidMagic : Option Nat
  unsupportedVersion : Option Nat

def nullDynamicInfoAddress : Nat := 0
def magic : Nat := 0x4942534f

/-- `read_dynamic_info`, on the memory that the address points to. -/
def readDynamicInfo (memory : Nat → DynamicInfo) (address : Nat) : Except ReadError DynamicInfo :=
  if address = nullDynamicInfoAddress then
    .error ⟨some address, none, none⟩
  else
    let dynamicInfo := memory address
    let invalidMagic := if dynamicInfo.magic ≠ magic then some dynamicInfo.magic else none
    let unsupportedVersion :=
      if dynamicInfo.version < 3 then none else some dynamicInfo.version
    if invalidMagic.isSome || unsupportedVersion.isSome then
      .error ⟨none, invalidMagic, unsupportedVersion⟩
    else
      .ok dynamicInfo

/-- The closure `claim_boot_hart`: the result of the compare-exchange on
`BOOT_HART_ID`, and what the word holds after it. -/
def claimBootHart (xlen : Xlen) (bootHartId hart : Nat) : Bool × Nat :=
  if bootHartId = xlen.usizeMax then (true, hart) else (bootHartId == hart, bootHartId)

/-- `is_selected_boot_hart`. -/
def isSelectedBootHart (xlen : Xlen) (selectedHart : Option Nat) (bootHartId hart : Nat) : Bool × Nat :=
  match selectedHart with
  | some hartId =>
    if hartId = xlen.usizeMax then claimBootHart xlen bootHartId hart
    else (hart == hartId, bootHartId)
  | none => claimBootHart xlen bootHartId hart

/-! ## The programs of the harts -/

/-- The shared statics that boot fills. All but the lifecycle cells lie in BSS. -/
inductive Static
  | heap
  | hartLocal (hart : Nat)
  | imsic
  | hartWake
  | wakeup
  | ipiDevice
  | timerDevice
  | runtimeIpi
  | runtimeIpiHandler
  | runtimeIrq
  | runtimeTimer
  | runtimeEvents
  | platform
  | logger
  | sbiDispatcher
  | ready
  | lifecycle (hart : Nat)
  | trapState (hart : Nat)
  deriving DecidableEq, Repr

/-- A lifecycle cell starts in the state `STATE_STOPPED`, which is not zero. -/
def Static.inBss : Static → Bool
  | .lifecycle _ => false
  | _ => true

/-- What the boot code does with the statics. -/
inductive Action
  /-- `Once::call_once`. -/
  | callOnce (c : Static)
  /-- A transition that the code expects to be the first: `set_logger`,
  `stage_current`, `trap::init`. -/
  | publishOnce (c : Static)
  /-- A use of a static that must have been filled. -/
  | expect (c : Static)
  /-- Code that may stop the hart. -/
  | fallible
  | markReady
  | waitUntilReady
  deriving DecidableEq, Repr

/-- How a hart comes to run Rust code: led by `DynamicInfo` or the race, behind
the boot hart, or released from hardware reset. -/
inductive Role
  | boot
  | secondary
  | warm
  deriving DecidableEq, Repr

/-- The platform: the harts, the part of BSS that holds a static, the clearing
loop's length, what the previous stage passed, and what was found on the board. -/
structure Platform (xlen : Xlen) where
  harts : Finset Nat
  harts_few : harts.card < 2 ^ 32
  bssWords : Nat
  bssWord : Static → Nat
  bssWord_lt : ∀ c, bssWord c < bssWords
  dynamic : Bool
  dynamicInfoAddress : Nat → Nat
  memory : Nat → DynamicInfo
  enabled : List Nat
  enabled_lt : ∀ hart ∈ enabled, hart < numHartMax
  hasIpi : Bool
  hasTimer : Bool
  hasWake : Bool
  usesImsic : Bool

namespace Platform

variable (p : Platform xlen)

/-- The hart that the build and the previous stage designate, if any. -/
def selectedHart (hart : Nat) : Option Nat :=
  if p.dynamic then
    match readDynamicInfo p.memory (p.dynamicInfoAddress hart) with
    | .ok dynamicInfo => some dynamicInfo.bootHart
    | .error _ => none
  else
    none

/-- `hart_local::init`. -/
def hartLocalInit : List Action :=
  ((List.range numHartMax).map .hartLocal).map .callOnce

/-- `publish_sbi_dispatcher`. -/
def publishSbiDispatcher : List Action :=
  [.expect .platform, .expect .heap, .callOnce .sbiDispatcher]

/-- The statics that `publish_platform_services` fills by `call_once`, in its order. -/
def services : List Static :=
  (if p.usesImsic then [.imsic] else []) ++ (if p.hasWake then [.hartWake] else []) ++ [.wakeup] ++
  (if p.hasIpi then [.ipiDevice] else []) ++ (if p.hasTimer then [.timerDevice] else []) ++
  [.runtimeIpi, .runtimeIpiHandler, .runtimeIrq, .runtimeTimer, .runtimeEvents, .platform]

/-- `publish_platform_services`. -/
def publishPlatformServices : List Action :=
  p.services.map .callOnce ++ [.publishOnce .logger] ++ publishSbiDispatcher ++
  [.markReady, .expect .platform]

/-- `try_init_board`: discovery records the extensions of every enabled hart in
its slot, then each step up to the publication may fail. -/
def initBoard : List Action :=
  [.expect .heap, .fallible] ++ (p.enabled.map .hartLocal).map .expect ++
  [.fallible] ++ p.publishPlatformServices

/-- `detect_hart_features`. -/
def detectHartFeatures (hart : Nat) : List Action := [.expect (.hartLocal hart)]

/-- `set_pmp` with `firmware_ram_range`, which asserts the alignment of its bounds. -/
def setPmp : List Action := [.expect .platform, .fallible]

/-- `enable_supervisor_services`. -/
def enableSupervisorServices (hart : Nat) : List Action :=
  (if p.usesImsic then [.expect .platform] else []) ++
  [.expect (.hartLocal hart), .expect .sbiDispatcher, .publishOnce (.trapState hart)]

/-- `boot_hart`. -/
def bootHart (hart : Nat) : List Action :=
  [.callOnce .heap] ++ hartLocalInit ++ p.initBoard ++ setPmp ++ detectHartFeatures hart ++
  [.fallible, .fallible, .publishOnce (.lifecycle hart)] ++ p.enableSupervisorServices hart

/-- `secondary_hart`: a hart released from hardware reset has no next stage to decode. -/
def secondaryHart (boot : Bool) (hart : Nat) : List Action :=
  [.waitUntilReady] ++ detectHartFeatures hart ++ [.expect .platform] ++ setPmp ++
  (if boot then [.fallible] else []) ++ [.fallible] ++ p.enableSupervisorServices hart

def program : Role → Nat → List Action
  | .boot, hart => p.bootHart hart
  | .secondary, hart => p.secondaryHart true hart
  | .warm, hart => p.secondaryHart false hart

/-- The statics that the boot hart has filled before it sets `READY`. -/
def published : List Static :=
  [.sbiDispatcher, .logger] ++ p.services ++ (List.range numHartMax).map .hartLocal ++ [.heap]

end Platform

/-! ## The machine -/

/-- Where a hart is. -/
inductive Pc
  | reset
  /-- Before the `amoadd` on the race word. -/
  | elect
  | relocate
  /-- The loop at label 2, before it looks at this word. -/
  | clear (word : Nat)
  /-- Label 3, before the `amoadd` on the bss-ready word. -/
  | release
  /-- The loop at label 4. -/
  | waitBss
  /-- `locate_stack`, from `_start` or from `k1_warm_entry`. -/
  | locate (warm : Bool)
  /-- `BootInfo::decode`. -/
  | decode
  /-- `DeviceTreeHandoff::claim`, on the boot hart. -/
  | claim
  | run (role : Role) (todo : List Action)
  /-- `finish_boot`. -/
  | finish (role : Role)
  /-- `fail_stop`, for a hart without a stack. -/
  | failStop (warm : Bool)
  /-- A panic, `fail::stop` or `reset::fail`. -/
  | stopped (role : Role) (todo : List Action)
  /-- A use of a static that is not cleared, not filled or already taken. -/
  | misused (role : Role) (action : Action)
  deriving Repr

def Pc.finished : Pc → Bool
  | .finish _ => true
  | _ => false

/-- The content of a static: not known, as BSS at reset, zero, or filled. -/
inductive Cell
  | garbage
  | empty
  | full
  deriving DecidableEq, Repr

/-- What a hart is made to do next. -/
inductive Choice
  | proceed
  | fail
  | hardwareReset
  deriving DecidableEq, Repr

/-- The harts with the words and statics that they share. -/
structure System where
  race : BitVec 32
  bssReady : BitVec 32
  relocated : Bool
  bootHartId : Nat
  cells : Static → Cell
  pc : Nat → Pc

namespace System

def goto (s : System) (hart : Nat) (pc : Pc) : System :=
  { s with pc := Function.update s.pc hart pc }

def fill (s : System) (c : Static) : System :=
  { s with cells := Function.update s.cells c .full }

/-- The image as it is loaded; what BSS holds is not known. -/
def init (xlen : Xlen) : System where
  race := 0
  bssReady := 0
  relocated := false
  bootHartId := xlen.usizeMax
  cells c := if c.inBss then .garbage else .empty
  pc _ := .reset

/-- One action of the program of a hart. -/
def act (s : System) (hart : Nat) (role : Role) (action : Action) (todo : List Action) : System :=
  match action with
  | .callOnce c =>
    if s.cells c = .garbage then s.goto hart (.misused role action)
    else (s.fill c).goto hart (.run role todo)
  | .publishOnce c =>
    if s.cells c = .empty then (s.fill c).goto hart (.run role todo)
    else s.goto hart (.misused role action)
  | .expect c =>
    if s.cells c = .full then s.goto hart (.run role todo)
    else s.goto hart (.misused role action)
  | .fallible => s.goto hart (.run role todo)
  | .markReady => (s.fill .ready).goto hart (.run role todo)
  | .waitUntilReady =>
    if s.cells .ready = .garbage then s.goto hart (.misused role action)
    else if s.cells .ready = .full then s.goto hart (.run role todo)
    else s

/-- One word of BSS is cleared, with the static that it holds. -/
def clearWord (s : System) (p : Platform xlen) (word : Nat) : System :=
  { s with cells := fun c => if c.inBss ∧ p.bssWord c = word then .empty else s.cells c }

/-- What a hart does when nothing goes wrong on it. -/
def proceed (p : Platform xlen) (s : System) (hart : Nat) : Option System :=
  match s.pc hart with
  | .reset => some (s.goto hart .elect)
  | .elect =>
    some ({ s with race := s.race + 1 }.goto hart (if s.race = 0 then .relocate else .waitBss))
  | .relocate => some ({ s with relocated := true }.goto hart (.clear 0))
  | .clear word =>
    if word < p.bssWords then some ((s.clearWord p word).goto hart (.clear (word + 1)))
    else some (s.goto hart .release)
  | .release => some ({ s with bssReady := s.bssReady + 1 }.goto hart (.locate false))
  | .waitBss => if s.bssReady = 0 then some s else some (s.goto hart (.locate false))
  | .locate warm =>
    if hart < numHartMax then
      some (s.goto hart (if warm then .run .warm (p.program .warm hart) else .decode))
    else some (s.goto hart (.failStop warm))
  | .decode =>
    let selection := isSelectedBootHart xlen (p.selectedHart hart) s.bootHartId hart
    some ({ s with bootHartId := selection.2 }.goto hart
      (if selection.1 then .claim else .run .secondary (p.program .secondary hart)))
  | .claim => some (s.goto hart (.run .boot (p.program .boot hart)))
  | .run role [] => some (s.goto hart (.finish role))
  | .run role (action :: todo) => some (s.act hart role action todo)
  | .finish _ => none
  | .failStop _ => none
  | .stopped _ _ => none
  | .misused _ _ => none

/-- A fallible piece of code stops the hart. -/
def fail (p : Platform xlen) (s : System) (hart : Nat) : Option System :=
  match s.pc hart with
  | .claim => some (s.goto hart (.stopped .boot (p.program .boot hart)))
  | .run role (.fallible :: todo) => some (s.goto hart (.stopped role todo))
  | _ => none

/-- Hardware releases a hart that has not run yet, once a hart serves the supervisor. -/
def hardwareReset (p : Platform xlen) (s : System) (hart : Nat) : Option System :=
  match s.pc hart with
  | .reset =>
    if ∃ g ∈ p.harts, (s.pc g).finished = true then some (s.goto hart (.locate true)) else none
  | _ => none

def step (p : Platform xlen) (s : System) (hart : Nat) : Choice → Option System
  | .proceed => if hart ∈ p.harts then s.proceed p hart else none
  | .fail => if hart ∈ p.harts then s.fail p hart else none
  | .hardwareReset => if hart ∈ p.harts then s.hardwareReset p hart else none

end System

/-- One step of one hart. -/
def Platform.Step (p : Platform xlen) (s : System) (label : Nat × Choice) (s' : System) : Prop :=
  s.step p label.1 label.2 = some s'

def System.Initial (xlen : Xlen) (s : System) : Prop := s = .init xlen

/-! ## The race and the clearing of BSS -/

namespace Pc

/-- Whether a hart has won or lost the race of `_start`. -/
def elected : Pc → Bool
  | .reset | .elect => false
  | .relocate | .clear _ | .release | .waitBss | .decode | .claim => true
  | .locate warm | .failStop warm => !warm
  | .run role _ | .finish role | .stopped role _ | .misused role _ => role != .warm

/-- The hart that relocates the image and clears BSS. -/
def winning : Pc → Bool
  | .relocate | .clear _ | .release => true
  | _ => false

/-- Behind label 5, where BSS is in use. -/
def past : Pc → Bool
  | .reset | .elect | .relocate | .clear _ | .release | .waitBss => false
  | _ => true

theorem past_of_finished {pc : Pc} (h : pc.finished = true) : pc.past = true := by
  cases pc <;> first | rfl | cases h

theorem elected_of_winning {pc : Pc} (h : pc.winning = true) : pc.elected = true := by
  cases pc <;> first | rfl | cases h

theorem past_eq_false_of_winning {pc : Pc} (h : pc.winning = true) : pc.past = false := by
  cases pc <;> first | rfl | cases h

end Pc

namespace System

variable {p : Platform xlen} {s : System} {hart : Nat} {pc : Pc}

@[simp] theorem goto_pc_same (s : System) (hart : Nat) (pc : Pc) : (s.goto hart pc).pc hart = pc :=
  Function.update_self ..

theorem goto_pc_other (s : System) {hart g : Nat} (pc : Pc) (hne : g ≠ hart) :
    (s.goto hart pc).pc g = s.pc g :=
  Function.update_of_ne hne ..

@[simp] theorem fill_same (s : System) (c : Static) : (s.fill c).cells c = .full :=
  Function.update_self ..

theorem fill_other (s : System) {c d : Static} (hne : d ≠ c) : (s.fill c).cells d = s.cells d :=
  Function.update_of_ne hne ..

theorem fill_full {c d : Static} (hfull : s.cells d = .full) : (s.fill c).cells d = .full := by
  by_cases hd : d = c
  · rw [hd, fill_same]
  · rw [fill_other s hd, hfull]

theorem eq_or_full_of_fill {c d : Static} (hfull : (s.fill c).cells d = .full) :
    d = c ∨ s.cells d = .full := by
  by_cases hd : d = c
  · exact .inl hd
  · exact .inr (fill_other s hd ▸ hfull)

/-- The harts that have taken part in the race. -/
def electedCount (p : Platform xlen) (s : System) : Nat :=
  (p.harts.filter fun hart => (s.pc hart).elected = true).card

theorem electedCount_congr {s' : System} (hart : Nat) (hother : ∀ g ≠ hart, s'.pc g = s.pc g)
    (hsame : (s'.pc hart).elected = (s.pc hart).elected) :
    s'.electedCount p = s.electedCount p := by
  unfold electedCount
  congr 1
  refine Finset.filter_congr fun g _ => ?_
  by_cases hg : g = hart
  · rw [hg, hsame]
  · rw [hother g hg]

theorem electedCount_enter (hhart : hart ∈ p.harts) (hbefore : (s.pc hart).elected = false)
    (hafter : pc.elected = true) : (s.goto hart pc).electedCount p = s.electedCount p + 1 := by
  have hnew : (p.harts.filter fun g => ((s.goto hart pc).pc g).elected = true) =
      insert hart (p.harts.filter fun g => (s.pc g).elected = true) := by
    ext g
    by_cases hg : g = hart
    · subst hg
      simp [hhart, hafter]
    · simp [goto_pc_other s pc hg, hg]
  have hnot : hart ∉ p.harts.filter fun g => (s.pc g).elected = true := by
    simp [hbefore]
  rw [electedCount, hnew, Finset.card_insert_of_notMem hnot, electedCount]

/-- The race has at most one winner, who prepares the image before any hart uses
BSS, and the race word has counted the harts that took part. -/
structure Gate (p : Platform xlen) (s : System) : Prop where
  outside : ∀ hart ∉ p.harts, s.pc hart = .reset
  count : s.electedCount p = s.race.toNat
  single : ∀ h g, (s.pc h).winning = true → (s.pc g).winning = true → h = g
  raced : s.race = 0 → s.bssReady = 0
  someone : s.race ≠ 0 → s.bssReady ≠ 0 ∨ ∃ h, (s.pc h).winning = true
  closed : ∀ h, (s.pc h).winning = true → s.bssReady = 0
  ready : s.bssReady ≠ 0 → s.relocated = true ∧ ∀ c, s.cells c ≠ .garbage
  past : ∀ h, (s.pc h).past = true → s.bssReady ≠ 0
  unfilled : s.bssReady = 0 → ∀ c, s.cells c ≠ .full
  clear : ∀ h word, s.pc h = .clear word →
    s.relocated = true ∧ ∀ c, s.cells c = .garbage → word ≤ p.bssWord c
  release : ∀ h, s.pc h = .release → s.relocated = true ∧ ∀ c, s.cells c ≠ .garbage
  bss : ∀ c, s.cells c = .garbage → c.inBss = true

/-- A step of the winner that leaves it at work. -/
structure Work (p : Platform xlen) (s s' : System) (hart : Nat) : Prop where
  mem : hart ∈ p.harts
  race : s'.race = s.race
  bssReady : s'.bssReady = s.bssReady
  other : ∀ g ≠ hart, s'.pc g = s.pc g
  elected : (s'.pc hart).elected = (s.pc hart).elected
  before : (s.pc hart).winning = true
  after : (s'.pc hart).winning = true
  full : ∀ c, s'.cells c = .full → s.cells c = .full
  garbage : ∀ c, s'.cells c = .garbage → s.cells c = .garbage
  clear : ∀ word, s'.pc hart = .clear word →
    s'.relocated = true ∧ ∀ c, s'.cells c = .garbage → word ≤ p.bssWord c
  release : s'.pc hart = .release → s'.relocated = true ∧ ∀ c, s'.cells c ≠ .garbage

namespace Gate

variable {s' : System}

/-- A hart without a part in the preparation goes on. -/
theorem goto (hgate : Gate p s) (hmem : hart ∈ p.harts)
    (helected : pc.elected = (s.pc hart).elected) (hbefore : (s.pc hart).winning = false)
    (hafter : pc.winning = false) (hpast : pc.past = true → s.bssReady ≠ 0) :
    Gate p (s.goto hart pc) := by
  have hpc : ∀ g, ((s.goto hart pc).pc g).winning = true → g ≠ hart ∧ (s.pc g).winning = true := by
    intro g hg
    by_cases hne : g = hart
    · rw [hne, goto_pc_same] at hg
      exact absurd hg (Bool.eq_false_iff.mp hafter)
    · exact ⟨hne, goto_pc_other s pc hne ▸ hg⟩
  constructor
  case outside =>
    intro g hg
    rw [goto_pc_other s pc fun heq : g = hart => hg (heq ▸ hmem)]
    exact hgate.outside g hg
  case count =>
    refine (electedCount_congr hart (fun g hne => goto_pc_other s pc hne) ?_).trans hgate.count
    rw [goto_pc_same, helected]
  case single => exact fun g g' hg hg' => hgate.single g g' (hpc g hg).2 (hpc g' hg').2
  case raced => exact hgate.raced
  case someone =>
    intro hrace
    refine (hgate.someone hrace).imp_right ?_
    rintro ⟨g, hg⟩
    have hne : g ≠ hart := by
      rintro rfl
      exact Bool.false_ne_true (hbefore.symm.trans hg)
    exact ⟨g, by rw [goto_pc_other s pc hne]; exact hg⟩
  case closed => exact fun g hg => hgate.closed g (hpc g hg).2
  case ready => exact hgate.ready
  case past =>
    intro g hg
    by_cases hne : g = hart
    · rw [hne, goto_pc_same] at hg
      exact hpast hg
    · exact hgate.past g (goto_pc_other s pc hne ▸ hg)
  case unfilled => exact hgate.unfilled
  case clear =>
    intro g word hg
    have hne := (hpc g (by rw [hg]; rfl)).1
    exact hgate.clear g word (goto_pc_other s pc hne ▸ hg)
  case release =>
    intro g hg
    have hne := (hpc g (by rw [hg]; rfl)).1
    exact hgate.release g (goto_pc_other s pc hne ▸ hg)
  case bss => exact hgate.bss

theorem work (hgate : Gate p s) (h : Work p s s' hart) : Gate p s' := by
  have hzero := hgate.closed hart h.before
  have hzero' : s'.bssReady = 0 := h.bssReady.trans hzero
  have hself : ∀ g, (s'.pc g).winning = true → g = hart := by
    intro g hg
    by_contra hne
    exact hne (hgate.single g hart (h.other g hne ▸ hg) h.before)
  constructor
  case outside =>
    intro g hg
    rw [h.other g (fun heq => hg (heq ▸ h.mem))]
    exact hgate.outside g hg
  case count => rw [electedCount_congr hart h.other h.elected, h.race, hgate.count]
  case single => exact fun g g' hg hg' => (hself g hg).trans (hself g' hg').symm
  case raced => exact fun _ => hzero'
  case someone => exact fun _ => .inr ⟨hart, h.after⟩
  case closed => exact fun _ _ => hzero'
  case ready => exact fun hready => absurd hzero' hready
  case past =>
    intro g hg
    by_cases hne : g = hart
    · subst hne
      exact absurd hg (Bool.eq_false_iff.mp (Pc.past_eq_false_of_winning h.after))
    · exact absurd hzero (hgate.past g (h.other g hne ▸ hg))
  case unfilled => exact fun _ c hc => hgate.unfilled hzero c (h.full c hc)
  case clear =>
    intro g word hg
    have hne := hself g (by rw [hg]; rfl)
    exact h.clear word (hne ▸ hg)
  case release =>
    intro g hg
    have hne := hself g (by rw [hg]; rfl)
    exact h.release (hne ▸ hg)
  case bss => exact fun c hc => hgate.bss c (h.garbage c hc)

/-- While the race word is zero no hart has taken part. -/
theorem not_elected (hgate : Gate p s) (hzero : s.race = 0) (g : Nat) :
    (s.pc g).elected = false := by
  by_cases hg : g ∈ p.harts
  · have hcard : s.electedCount p = 0 := by
      rw [hgate.count, hzero]
      rfl
    by_contra hne
    have hin : g ∈ p.harts.filter fun g => (s.pc g).elected = true :=
      Finset.mem_filter.mpr ⟨hg, by simpa using hne⟩
    rw [Finset.card_eq_zero.mp hcard] at hin
    exact absurd hin (Finset.notMem_empty g)
  · rw [hgate.outside g hg]
    rfl

theorem elect (hgate : Gate p s) (hmem : hart ∈ p.harts) (hpc : s.pc hart = .elect) :
    Gate p ({ s with race := s.race + 1 }.goto hart
      (if s.race = 0 then .relocate else .waitBss)) := by
  generalize hs' : System.goto _ hart _ = s'
  have hother : ∀ g ≠ hart, s'.pc g = s.pc g := fun g hne => by rw [← hs', goto_pc_other _ _ hne]
  have hself : s'.pc hart = if s.race = 0 then .relocate else .waitBss := by rw [← hs', goto_pc_same]
  have hrace : s'.race = s.race + 1 := by rw [← hs']; rfl
  have hready : s'.bssReady = s.bssReady := by rw [← hs']; rfl
  have hcells : s'.cells = s.cells := by rw [← hs']; rfl
  have hrelocated : s'.relocated = s.relocated := by rw [← hs']; rfl
  have hcount : s'.electedCount p = s.electedCount p + 1 := by
    have helected : (if s.race = 0 then Pc.relocate else .waitBss).elected = true := by
      split <;> rfl
    rw [← hs', electedCount_enter hmem (by rw [hpc]; rfl) helected]
    rfl
  have hraceNat : s'.race.toNat = s.electedCount p + 1 := by
    have hle : s'.electedCount p ≤ p.harts.card := Finset.card_filter_le _ _
    have hfew := p.harts_few
    have hone : (1 : BitVec 32).toNat = 1 := rfl
    have hcount' := hgate.count
    rw [hrace, BitVec.toNat_add, hone, Nat.mod_eq_of_lt] <;> omega
  have hwins : ∀ g, (s'.pc g).winning = true →
      (g = hart ∧ s.race = 0) ∨ (g ≠ hart ∧ (s.pc g).winning = true) := by
    intro g hg
    by_cases hne : g = hart
    · subst hne
      rw [hself] at hg
      split at hg
      next hzero => exact .inl ⟨rfl, hzero⟩
      next => cases hg
    · exact .inr ⟨hne, hother g hne ▸ hg⟩
  have hnowin : s.race = 0 → ∀ g, (s.pc g).winning = false := fun hzero g =>
    Bool.eq_false_iff.mpr fun hg =>
      Bool.false_ne_true ((hgate.not_elected hzero g).symm.trans (Pc.elected_of_winning hg))
  have hpast : ∀ g, (s'.pc g).past = true → (s.pc g).past = true := by
    intro g hg
    by_cases hne : g = hart
    · subst hne
      rw [hself] at hg
      split at hg <;> cases hg
    · exact hother g hne ▸ hg
  have hold : ∀ g pc, s'.pc g = pc → pc ≠ .relocate → pc.winning = true → s.pc g = pc := by
    intro g pc hg hne hwin
    by_cases heq : g = hart
    · subst heq
      rw [hself] at hg
      split at hg <;> subst hg <;> first | exact absurd rfl hne | cases hwin
    · exact hother g heq ▸ hg
  constructor
  case outside =>
    intro g hg
    rw [hother g (fun heq => hg (heq ▸ hmem))]
    exact hgate.outside g hg
  case count => exact hcount.trans hraceNat.symm
  case single =>
    intro g g' hg hg'
    obtain ⟨rfl, hzero⟩ | ⟨-, hg⟩ := hwins g hg
    · obtain ⟨rfl, -⟩ | ⟨-, hg'⟩ := hwins g' hg'
      · rfl
      · exact absurd hg' (Bool.eq_false_iff.mp (hnowin hzero g'))
    · obtain ⟨rfl, hzero⟩ | ⟨-, hg'⟩ := hwins g' hg'
      · exact absurd hg (Bool.eq_false_iff.mp (hnowin hzero g))
      · exact hgate.single g g' hg hg'
  case raced =>
    intro hzero
    rw [hzero] at hraceNat
    exact absurd hraceNat.symm (Nat.succ_ne_zero _)
  case someone =>
    intro _
    by_cases hzero : s.race = 0
    · refine .inr ⟨hart, ?_⟩
      rw [hself, if_pos hzero]
      rfl
    · rw [hready]
      refine (hgate.someone hzero).imp_right ?_
      rintro ⟨g, hg⟩
      have hne : g ≠ hart := by
        rintro rfl
        rw [hpc] at hg
        cases hg
      exact ⟨g, by rw [hother g hne]; exact hg⟩
  case closed =>
    intro g hg
    rw [hready]
    obtain ⟨-, hzero⟩ | ⟨-, hg⟩ := hwins g hg
    · exact hgate.raced hzero
    · exact hgate.closed g hg
  case ready =>
    rw [hready, hrelocated, hcells]
    exact hgate.ready
  case past =>
    rw [hready]
    exact fun g hg => hgate.past g (hpast g hg)
  case unfilled =>
    rw [hready, hcells]
    exact hgate.unfilled
  case clear =>
    intro g word hg
    rw [hrelocated, hcells]
    exact hgate.clear g word (hold g _ hg nofun rfl)
  case release =>
    intro g hg
    rw [hrelocated, hcells]
    exact hgate.release g (hold g _ hg nofun rfl)
  case bss =>
    rw [hcells]
    exact hgate.bss

theorem open_bss (hgate : Gate p s) (hmem : hart ∈ p.harts) (hpc : s.pc hart = .release) :
    Gate p ({ s with bssReady := s.bssReady + 1 }.goto hart (.locate false)) := by
  have hwin : (s.pc hart).winning = true := by rw [hpc]; rfl
  have hzero := hgate.closed hart hwin
  generalize hs' : System.goto _ hart _ = s'
  have hother : ∀ g ≠ hart, s'.pc g = s.pc g := fun g hne => by rw [← hs', goto_pc_other _ _ hne]
  have hself : s'.pc hart = .locate false := by rw [← hs', goto_pc_same]
  have hrace : s'.race = s.race := by rw [← hs']; rfl
  have hready : s'.bssReady = 1 := by
    rw [← hs']
    exact (congrArg (· + 1) hzero)
  have hcells : s'.cells = s.cells := by rw [← hs']; rfl
  have hrelocated : s'.relocated = s.relocated := by rw [← hs']; rfl
  have hnowin : ∀ g, (s'.pc g).winning = false := by
    intro g
    by_cases hne : g = hart
    · rw [hne, hself]
      rfl
    · rw [hother g hne]
      exact Bool.eq_false_iff.mpr fun hg => hne (hgate.single g hart hg hwin)
  have hne : s'.bssReady ≠ 0 := by rw [hready]; decide
  constructor
  case outside =>
    intro g hg
    rw [hother g (fun heq => hg (heq ▸ hmem))]
    exact hgate.outside g hg
  case count => rw [electedCount_congr hart hother (by rw [hself, hpc]; rfl), hrace, hgate.count]
  case single => exact fun g _ hg => absurd hg (Bool.eq_false_iff.mp (hnowin g))
  case raced =>
    intro hzero
    have hnot := hgate.not_elected (hrace.symm.trans hzero) hart
    rw [hpc] at hnot
    cases hnot
  case someone => exact fun _ => .inl hne
  case closed => exact fun g hg => absurd hg (Bool.eq_false_iff.mp (hnowin g))
  case ready =>
    rw [hrelocated, hcells]
    exact fun _ => hgate.release hart hpc
  case past => exact fun _ _ => hne
  case unfilled => exact fun hzero => absurd hzero hne
  case clear =>
    intro g word hg
    have hnot := hnowin g
    rw [hg] at hnot
    cases hnot
  case release =>
    intro g hg
    have hnot := hnowin g
    rw [hg] at hnot
    cases hnot
  case bss =>
    rw [hcells]
    exact hgate.bss

theorem fill (hgate : Gate p s) (hready : s.bssReady ≠ 0) (c : Static) : Gate p (s.fill c) where
  outside := hgate.outside
  count := hgate.count
  single := hgate.single
  raced := hgate.raced
  someone := hgate.someone
  closed := hgate.closed
  ready _ := by
    obtain ⟨hrelocated, hcells⟩ := hgate.ready hready
    refine ⟨hrelocated, fun d hd => ?_⟩
    by_cases hne : d = c
    · rw [hne, fill_same] at hd
      cases hd
    · exact hcells d (fill_other s hne ▸ hd)
  past := hgate.past
  unfilled hzero := absurd hzero hready
  clear h word hpc := by
    have hwin : (s.pc h).winning = true := congrArg Pc.winning hpc
    exact absurd (hgate.closed h hwin) hready
  release h hpc := by
    have hwin : (s.pc h).winning = true := congrArg Pc.winning hpc
    exact absurd (hgate.closed h hwin) hready
  bss d hd := by
    refine hgate.bss d ?_
    by_cases hne : d = c
    · rw [hne, fill_same] at hd
      cases hd
    · exact fill_other s hne ▸ hd

theorem withBootHartId (hgate : Gate p s) (bootHartId : Nat) : Gate p { s with bootHartId } where
  outside := hgate.outside
  count := hgate.count
  single := hgate.single
  raced := hgate.raced
  someone := hgate.someone
  closed := hgate.closed
  ready := hgate.ready
  past := hgate.past
  unfilled := hgate.unfilled
  clear := hgate.clear
  release := hgate.release
  bss := hgate.bss

/-- The results of one action of a program. -/
theorem act (hgate : Gate p s) (hmem : hart ∈ p.harts) {role : Role} {action : Action}
    {todo : List Action} (hpc : s.pc hart = .run role (action :: todo)) :
    Gate p (s.act hart role action todo) := by
  have hready : s.bssReady ≠ 0 := hgate.past hart (by rw [hpc]; rfl)
  have hgo : ∀ {s : System} {pc : Pc}, Gate p s → s.pc hart = .run role (action :: todo) →
      s.bssReady ≠ 0 → pc = .run role todo ∨ pc = .misused role action → Gate p (s.goto hart pc) := by
    rintro s pc hgate hpc hready (rfl | rfl) <;>
      exact hgate.goto hmem (by rw [hpc]; rfl) (by rw [hpc]; rfl) rfl fun _ => hready
  cases action with
  | callOnce c =>
    unfold System.act
    dsimp only
    split
    · exact hgo hgate hpc hready (.inr rfl)
    · exact hgo (hgate.fill hready c) hpc hready (.inl rfl)
  | publishOnce c =>
    unfold System.act
    dsimp only
    split
    · exact hgo (hgate.fill hready c) hpc hready (.inl rfl)
    · exact hgo hgate hpc hready (.inr rfl)
  | expect c =>
    unfold System.act
    dsimp only
    split
    · exact hgo hgate hpc hready (.inl rfl)
    · exact hgo hgate hpc hready (.inr rfl)
  | fallible => exact hgo hgate hpc hready (.inl rfl)
  | markReady => exact hgo (hgate.fill hready .ready) hpc hready (.inl rfl)
  | waitUntilReady =>
    unfold System.act
    dsimp only
    split
    · exact hgo hgate hpc hready (.inr rfl)
    · split
      · exact hgo hgate hpc hready (.inl rfl)
      · exact hgate

theorem proceed {s' : System} (hgate : Gate p s) (hmem : hart ∈ p.harts)
    (hstep : s.proceed p hart = some s') : Gate p s' := by
  unfold System.proceed at hstep
  split at hstep
  next hpc =>
    cases hstep
    exact hgate.goto hmem (by rw [hpc]; rfl) (by rw [hpc]; rfl) rfl nofun
  next hpc =>
    cases hstep
    exact hgate.elect hmem hpc
  next hpc =>
    cases hstep
    refine hgate.work
      { mem := hmem
        race := rfl
        bssReady := rfl
        other := fun g hne => goto_pc_other _ _ hne
        elected := by rw [goto_pc_same, hpc]; rfl
        before := by rw [hpc]; rfl
        after := by rw [goto_pc_same]; rfl
        full := fun _ => id
        garbage := fun _ => id
        clear := fun word hword => ⟨rfl, fun c _ => ?_⟩
        release := fun h => by rw [goto_pc_same] at h; cases h }
    rw [goto_pc_same] at hword
    cases hword
    exact Nat.zero_le _
  next word hpc =>
    obtain ⟨hrelocated, hcells⟩ := hgate.clear hart word hpc
    split at hstep
    next hword =>
      cases hstep
      have hkept : ∀ c cell, cell ≠ .empty → (s.clearWord p word).cells c = cell →
          s.cells c = cell ∧ ¬ (c.inBss = true ∧ p.bssWord c = word) := by
        intro c cell hcell hc
        change (if c.inBss ∧ p.bssWord c = word then Cell.empty else s.cells c) = cell at hc
        split at hc
        next => exact absurd hc.symm hcell
        next hnot => exact ⟨hc, hnot⟩
      refine hgate.work
        { mem := hmem
          race := rfl
          bssReady := rfl
          other := fun g hne => goto_pc_other _ _ hne
          elected := by rw [goto_pc_same, hpc]; rfl
          before := by rw [hpc]; rfl
          after := by rw [goto_pc_same]; rfl
          full := fun c hc => (hkept c .full nofun hc).1
          garbage := fun c hc => (hkept c .garbage nofun hc).1
          clear := fun word' hword' => ⟨hrelocated, fun c hc => ?_⟩
          release := fun h => by rw [goto_pc_same] at h; cases h }
      rw [goto_pc_same] at hword'
      cases hword'
      obtain ⟨hc, hnot⟩ := hkept c .garbage nofun hc
      refine Nat.lt_of_le_of_ne (hcells c hc) fun heq => hnot ⟨hgate.bss c hc, heq.symm⟩
    next hword =>
      cases hstep
      refine hgate.work
        { mem := hmem
          race := rfl
          bssReady := rfl
          other := fun g hne => goto_pc_other _ _ hne
          elected := by rw [goto_pc_same, hpc]; rfl
          before := by rw [hpc]; rfl
          after := by rw [goto_pc_same]; rfl
          full := fun _ => id
          garbage := fun _ => id
          clear := fun word' h => by rw [goto_pc_same] at h; cases h
          release := fun _ => ⟨hrelocated, fun c hc => ?_⟩ }
      have := hcells c hc
      have := p.bssWord_lt c
      omega
  next hpc =>
    cases hstep
    exact hgate.open_bss hmem hpc
  next hpc =>
    split at hstep
    next => cases hstep; exact hgate
    next hready =>
      cases hstep
      exact hgate.goto hmem (by rw [hpc]; rfl) (by rw [hpc]; rfl) rfl fun _ => hready
  next warm hpc =>
    have hready := hgate.past hart (by rw [hpc]; rfl)
    split at hstep <;> cases hstep
    · refine hgate.goto hmem ?_ (by rw [hpc]; rfl) ?_ fun _ => hready
      · rw [hpc]
        cases warm <;> rfl
      · cases warm <;> rfl
    · exact hgate.goto hmem (by rw [hpc]; rfl) (by rw [hpc]; rfl) rfl fun _ => hready
  next hpc =>
    have hready := hgate.past hart (by rw [hpc]; rfl)
    generalize isSelectedBootHart xlen (p.selectedHart hart) s.bootHartId hart = selection at hstep
    obtain ⟨isBootHart, bootHartId⟩ := selection
    cases isBootHart <;> cases hstep <;>
      exact (hgate.withBootHartId _).goto hmem (congrArg Pc.elected hpc).symm
        (congrArg Pc.winning hpc) rfl fun _ => hready
  next hpc =>
    have hready := hgate.past hart (by rw [hpc]; rfl)
    cases hstep
    exact hgate.goto hmem (by rw [hpc]; rfl) (by rw [hpc]; rfl) rfl fun _ => hready
  next role hpc =>
    have hready := hgate.past hart (by rw [hpc]; rfl)
    cases hstep
    exact hgate.goto hmem (by rw [hpc]; rfl) (by rw [hpc]; rfl) rfl fun _ => hready
  next role action todo hpc =>
    cases hstep
    exact hgate.act hmem hpc
  next => cases hstep
  next => cases hstep
  next => cases hstep
  next => cases hstep

theorem of_step {label : Nat × Choice} {s' : System} (hgate : Gate p s)
    (hstep : p.Step s label s') : Gate p s' := by
  obtain ⟨hart, choice⟩ := label
  unfold Platform.Step System.step at hstep
  split at hstep <;> split at hstep <;> try cases hstep
  next hmem => exact hgate.proceed hmem hstep
  next hmem =>
    unfold System.fail at hstep
    split at hstep
    next hpc =>
      have hready := hgate.past hart (by rw [hpc]; rfl)
      cases hstep
      exact hgate.goto hmem (by rw [hpc]; rfl) (by rw [hpc]; rfl) rfl fun _ => hready
    next role todo hpc =>
      have hready := hgate.past hart (by rw [hpc]; rfl)
      cases hstep
      exact hgate.goto hmem (by rw [hpc]; rfl) (by rw [hpc]; rfl) rfl fun _ => hready
    next => cases hstep
  next hmem =>
    unfold System.hardwareReset at hstep
    split at hstep
    next hpc =>
      split at hstep
      next hfinished =>
        obtain ⟨g, -, hg⟩ := hfinished
        cases hstep
        exact hgate.goto hmem (by rw [hpc]; rfl) (by rw [hpc]; rfl) rfl fun _ =>
          hgate.past g (Pc.past_of_finished hg)
      next => cases hstep
    next => cases hstep

end Gate

end System

end RustSbi.Firmware
