import Mathlib.Data.List.Range
import RustSbi.Memory.Region

/-!
Physical memory protection of the firmware (`firmware/mod.rs`): the registers
that `set_pmp` programs and the permission they give S-mode under the rule that
the lowest-numbered matching entry decides.
-/

namespace RustSbi.Firmware

open RustSbi.Memory

/-! ## The PMP unit -/

/-- `riscv::register::Range`, the address matching mode of an entry. -/
inductive Range
  | off
  | tor
  | na4
  | napot
  deriving DecidableEq, Repr

/-- `riscv::register::Permission`. -/
inductive Permission
  | none
  | r
  | w
  | x
  | rw
  | rx
  | wx
  | rwx
  deriving DecidableEq, Repr

/-- One configuration field of a `pmpcfg` register. -/
structure PmpConfig where
  range : Range
  permission : Permission
  locked : Bool
  deriving DecidableEq, Repr

/-- The PMP registers of a hart by entry number. Field `s` of register `pmpcfg n`
belongs to entry `4 * n + s`; an address register keeps the word written to it. -/
@[ext] structure Pmp where
  cfg : Nat → PmpConfig
  addr : Nat → Nat

namespace Pmp

/-- Whether entry `i` matches the byte at physical address `a`. Address
registers count words of four bytes; a TOR entry begins where the preceding
address register ends, entry 0 at zero; a NAPOT register ends in the ones that
encode the size of its aligned block. -/
def Matches (pmp : Pmp) (i a : Nat) : Prop :=
  match (pmp.cfg i).range with
  | .off => False
  | .tor => (if i = 0 then 0 else pmp.addr (i - 1)) ≤ a / 4 ∧ a / 4 < pmp.addr i
  | .na4 => a / 4 = pmp.addr i
  | .napot =>
    let block := (pmp.addr i ^^^ (pmp.addr i + 1)) + 1
    a / 4 / block = pmp.addr i / block

instance (pmp : Pmp) (i a : Nat) : Decidable (pmp.Matches i a) := by
  unfold Matches
  split <;> infer_instance

/-- The S-mode permission of the byte at `a` on a hart with `entries` entries:
the lowest-numbered matching entry decides, and no match denies. -/
def supervisorPermission (pmp : Pmp) (entries a : Nat) : Permission :=
  match (List.range entries).find? fun i => pmp.Matches i a with
  | some i => (pmp.cfg i).permission
  | none => .none

theorem supervisorPermission_of_first {pmp : Pmp} {entries i a : Nat} (hi : i < entries)
    (hm : pmp.Matches i a) (hfirst : ∀ j < i, ¬ pmp.Matches j a) :
    pmp.supervisorPermission entries a = (pmp.cfg i).permission := by
  have hfind : (List.range entries).find? (fun i => decide (pmp.Matches i a)) = some i := by
    rw [List.find?_range_eq_some]
    refine ⟨by simpa using hm, List.mem_range.mpr hi, fun j hj => ?_⟩
    simpa using hfirst j hj
  unfold supervisorPermission
  rw [hfind]

/-- Entry 0 is off and entries `1` to `last` are TOR. -/
structure TorChain (pmp : Pmp) (last : Nat) : Prop where
  off : (pmp.cfg 0).range = .off
  base : pmp.addr 0 = 0
  tor : ∀ i, 1 ≤ i → i ≤ last → (pmp.cfg i).range = .tor

/-- In a chain, the first address register above the word decides. -/
theorem TorChain.permission {pmp : Pmp} {last entries i a : Nat} (h : pmp.TorChain last)
    (hlast : last < entries) (h1 : 1 ≤ i) (hi : i ≤ last) (hlt : a / 4 < pmp.addr i)
    (hle : ∀ j < i, pmp.addr j ≤ a / 4) :
    pmp.supervisorPermission entries a = (pmp.cfg i).permission := by
  apply supervisorPermission_of_first (hi.trans_lt hlast)
  · unfold Matches
    rw [h.tor i h1 hi]
    simp only [show i ≠ 0 by omega, if_false]
    exact ⟨hle (i - 1) (by omega), hlt⟩
  · intro j hj
    have := hle j hj
    unfold Matches
    by_cases h0 : j = 0
    · rw [h0, h.off]
      exact id
    · rw [h.tor j (by omega) (by omega)]
      simp only
      omega

/-- In a chain, an address past every register is left to the entries after it. -/
theorem TorChain.not_matches {pmp : Pmp} {last a : Nat} (h : pmp.TorChain last)
    (hle : ∀ j ≤ last, pmp.addr j ≤ a / 4) : ∀ j ≤ last, ¬ pmp.Matches j a := by
  intro j hj
  have := hle j hj
  unfold Matches
  by_cases h0 : j = 0
  · rw [h0, h.off]
    exact id
  · rw [h.tor j (by omega) hj]
    simp only
    omega

end Pmp

/-! ## Programming the entries -/

variable {xlen : Xlen}

/-- The `pmpcfg` register that `set_pmp_config` selects; `none` is the
`unreachable!` arm. -/
def pmpcfgRegister : Xlen → Nat → Option Nat
  | _, 0 => some 0
  | .rv32, 1 => some 1
  | .rv32, 2 => some 2
  | .rv32, 3 => some 3
  | .rv64, 1 => some 2
  | _, _ => none

/-- `set_pmp_config`. -/
def setPmpConfig (xlen : Xlen) (index : Nat) (range : Range) (permission : Permission)
    (locked : Bool) (pmp : Pmp) : Option Pmp := do
  let slot := index % xlen.wordBytes
  let register ← pmpcfgRegister xlen (index / xlen.wordBytes)
  let config : PmpConfig := ⟨range, permission, locked⟩
  return { pmp with cfg := Function.update pmp.cfg (4 * register + slot) config }

/-- `set_pmp_config` and the write of the address register of the same entry,
for consecutive entries from `index` on. -/
def programEntries (xlen : Xlen) (index : Nat) :
    List (Range × Permission × Nat) → Pmp → Option Pmp
  | [], pmp => some pmp
  | (range, permission, value) :: entries, pmp => do
    let pmp ← setPmpConfig xlen index range permission false pmp
    programEntries xlen (index + 1) entries
      { pmp with addr := Function.update pmp.addr index value }

/-- Both register files hold entry `index` in field `index` of the word size. -/
theorem setPmpConfig_eq {index : Nat} (h : index < 16) (range : Range) (permission : Permission)
    (locked : Bool) (pmp : Pmp) :
    setPmpConfig xlen index range permission locked pmp =
      some { pmp with cfg := Function.update pmp.cfg index ⟨range, permission, locked⟩ } := by
  have hreg : ∃ register, pmpcfgRegister xlen (index / xlen.wordBytes) = some register ∧
      4 * register + index % xlen.wordBytes = index := by
    cases xlen <;> interval_cases index <;> exact ⟨_, rfl, rfl⟩
  obtain ⟨register, hr, he⟩ := hreg
  simp only [setPmpConfig, hr, Option.bind_eq_bind, Option.bind_some, he]
  rfl

/-- Programming consecutive entries sets exactly these. -/
theorem programEntries_spec (entries : List (Range × Permission × Nat)) (index : Nat) (pmp : Pmp)
    (h : index + entries.length ≤ 16) :
    ∃ pmp', programEntries xlen index entries pmp = some pmp' ∧
      (∀ i e, entries[i]? = some e →
        pmp'.cfg (index + i) = ⟨e.1, e.2.1, false⟩ ∧ pmp'.addr (index + i) = e.2.2) ∧
      (∀ i < index, pmp'.cfg i = pmp.cfg i ∧ pmp'.addr i = pmp.addr i) := by
  induction entries generalizing index pmp with
  | nil => exact ⟨pmp, rfl, by simp, fun i _ => ⟨rfl, rfl⟩⟩
  | cons entry entries ih =>
    obtain ⟨range, permission, value⟩ := entry
    rw [List.length_cons] at h
    obtain ⟨pmp', hp, hset, hkeep⟩ := ih (index + 1)
      ⟨Function.update pmp.cfg index ⟨range, permission, false⟩,
        Function.update pmp.addr index value⟩ (by omega)
    refine ⟨pmp', ?_, ?_, ?_⟩
    · simp only [programEntries, setPmpConfig_eq (show index < 16 by omega),
        Option.bind_eq_bind, Option.bind_some]
      exact hp
    · intro i e he
      cases i with
      | zero =>
        simp only [List.getElem?_cons_zero, Option.some.injEq] at he
        subst he
        have := hkeep index (by omega)
        simpa using this
      | succ i =>
        rw [List.getElem?_cons_succ] at he
        have := hset i e he
        rwa [show index + (i + 1) = index + 1 + i by omega]
    · intro i hi
      have := hkeep i (by omega)
      simp only [Function.update_of_ne (show i ≠ index by omega)] at this
      exact this

/-! ## The layout -/

/-- The linker symbols of the firmware image. -/
structure Image where
  sbiStart : Nat
  sbiEnd : Nat
  rodataStart : Nat
  rodataEnd : Nat
  deriving DecidableEq, Repr

/-- `ImsicInfo`, the fields read here. Discovery places every interrupt file at
an offset from the base. -/
structure ImsicInfo (xlen : Xlen) where
  machineBase : Nat
  hartFiles : List (Option (PhysAddrRange xlen))
  base_lt_stop : ∀ file ∈ hartFiles.filterMap id, machineBase < file.stop
  deriving DecidableEq, Repr

/-- What `set_pmp` reads of the IPI device and of `board_info()`. -/
structure Board (xlen : Xlen) where
  usesImsic : Bool
  isQemuVirt : Bool
  imsic : Option (ImsicInfo xlen)
  clint : Option (PhysAddrRange xlen)
  machineAplic : Option (PhysAddrRange xlen)
  noncacheableAliasOffset : Option Nat
  deriving DecidableEq, Repr

def qemuVirtClintBase : Nat := 0x02000000
def qemuVirtClintSize : Nat := 0x10000

/-- The device ranges of the AIA layout. That of the CLINT is the fixed window of
`set_pmp`, `qemuVirtClintSize` bytes from its start, whatever end the board describes. -/
structure AiaRanges where
  clintStart : Nat
  clintEnd : Nat
  aplicStart : Nat
  aplicEnd : Nat
  imsicStart : Nat
  imsicEnd : Nat
  deriving DecidableEq, Repr

/-- The IMSIC whose machine-level controllers firmware keeps for itself. -/
def Board.retainedImsic (board : Board xlen) : Option (ImsicInfo xlen) :=
  if board.usesImsic && board.isQemuVirt then board.imsic else none

/-- The device ranges `set_pmp` computes for the retained controllers; without a
machine APLIC it panics. -/
def Board.aiaRanges (board : Board xlen) (imsic : ImsicInfo xlen) : Option AiaRanges := do
  let clintStart := (board.clint.map PhysAddrRange.start).getD qemuVirtClintBase
  let clintEnd := (clintStart + qemuVirtClintSize) % xlen.words
  let aplic ← board.machineAplic
  let imsicEnd := ((imsic.hartFiles.filterMap id).map PhysAddrRange.stop).max?.getD
    ((imsic.machineBase + 0x1000) % xlen.words)
  return ⟨clintStart, clintEnd, aplic.start, aplic.stop, imsic.machineBase, imsicEnd⟩

/-- The TOR entries that every layout has for RAM below the image, the image
and RAM above it, as permission and upper bound. -/
def imageSegments (image : Image) (ramStart ramEnd : Nat) : List (Permission × Nat) :=
  [(.rwx, ramStart), (.rwx, image.sbiStart), (.r, image.rodataStart), (.none, image.rodataEnd),
   (.rw, image.sbiEnd), (.rwx, ramEnd)]

/-- The TOR entries of the retained interrupt controllers and the gaps below them. -/
def aiaSegments (d : AiaRanges) : List (Permission × Nat) :=
  [(.rwx, d.clintStart), (.none, d.clintEnd), (.rwx, d.aplicStart), (.none, d.aplicEnd),
   (.rwx, d.imsicStart), (.none, d.imsicEnd)]

/-- Entry 0 and one TOR entry for each segment. -/
def torEntries (segments : List (Permission × Nat)) : List (Range × Permission × Nat) :=
  (.off, .none, 0) :: segments.map fun s => (.tor, s.1, s.2 / 4)

/-- `set_pmp` on a hart; `none` is a failed assertion or another panic. -/
def setPmp (board : Board xlen) (image : Image) (ramStart ramEnd : Nat) (pmp : Pmp) :
    Option Pmp := do
  guard (ramStart % 4 = 0 ∧ ramEnd % 4 = 0 ∧ image.sbiStart % 4 = 0 ∧ image.sbiEnd % 4 = 0 ∧
    image.rodataStart % 4 = 0 ∧ image.rodataEnd % 4 = 0)
  match board.retainedImsic with
  | some imsic =>
    let d ← board.aiaRanges imsic
    programEntries xlen 0 (torEntries (aiaSegments d ++ imageSegments image ramStart ramEnd ++
      [(.rwx, xlen.usizeMax)])) pmp
  | none =>
    let pmp ← programEntries xlen 0 (torEntries (imageSegments image ramStart ramEnd)) pmp
    match board.noncacheableAliasOffset with
    | some offset =>
      guard (offset.isPowerOfTwo ∧ ramEnd ≤ offset)
      guard (image.sbiStart + offset < 2 ^ 64)
      guard (image.sbiEnd + offset < 2 ^ 64)
      let start := image.sbiStart + offset
      let stop := image.sbiEnd + offset
      guard (stop / 4 ≤ xlen.usizeMax)
      let pmp ← programEntries xlen 7 [(.off, .none, start / 4), (.tor, .none, stop / 4)] pmp
      guard (pmp.addr 8 = stop / 4)
      programEntries xlen 9 [(.napot, .rwx, xlen.usizeMax)] pmp
    | none => programEntries xlen 7 [(.tor, .rwx, xlen.usizeMax / 4)] pmp

/-! ## The intended permissions -/

/-- The image and the RAM around it are in order, as the linker and the choice
of the firmware RAM range provide. -/
structure OrderedImage (xlen : Xlen) (image : Image) (ramStart ramEnd : Nat) : Prop where
  ram_le_start : ramStart ≤ image.sbiStart
  start_le_rodata : image.sbiStart ≤ image.rodataStart
  rodata_le : image.rodataStart ≤ image.rodataEnd
  rodata_le_end : image.rodataEnd ≤ image.sbiEnd
  end_le_ram : image.sbiEnd ≤ ramEnd
  ram_le_max : ramEnd ≤ xlen.usizeMax

/-- The retained controllers lie below RAM in the order of the entries. -/
structure AiaRanges.Ordered (d : AiaRanges) (ramStart : Nat) : Prop where
  clint : d.clintStart ≤ d.clintEnd
  clint_le_aplic : d.clintEnd ≤ d.aplicStart
  aplic : d.aplicStart ≤ d.aplicEnd
  aplic_le_imsic : d.aplicEnd ≤ d.imsicStart
  imsic : d.imsicStart ≤ d.imsicEnd
  imsic_le_ram : d.imsicEnd ≤ ramStart

/-- The layout is in order. -/
structure OrderedLayout (board : Board xlen) (image : Image) (ramStart ramEnd : Nat) : Prop where
  image : OrderedImage xlen image ramStart ramEnd
  devices : ∀ imsic ∈ board.retainedImsic, ∀ d ∈ board.aiaRanges imsic, d.Ordered ramStart

/-- The addresses of the machine-level controllers that firmware retains. -/
def AiaRanges.Holds (d : AiaRanges) (a : Nat) : Prop :=
  (d.clintStart ≤ a ∧ a < d.clintEnd) ∨ (d.aplicStart ≤ a ∧ a < d.aplicEnd) ∨
    (d.imsicStart ≤ a ∧ a < d.imsicEnd)

instance (d : AiaRanges) (a : Nat) : Decidable (d.Holds a) := by
  unfold AiaRanges.Holds
  infer_instance

/-- The addresses of the noncacheable alias of the image. -/
def InAlias (board : Board xlen) (image : Image) (a : Nat) : Prop :=
  board.retainedImsic = none ∧ ∃ offset ∈ board.noncacheableAliasOffset,
    image.sbiStart + offset ≤ a ∧ a < image.sbiEnd + offset

/-- Addresses that must stay closed to S-mode outside the image itself. -/
def Closed (board : Board xlen) (image : Image) (a : Nat) : Prop :=
  (∃ imsic ∈ board.retainedImsic, ∃ d ∈ board.aiaRanges imsic, d.Holds a) ∨ InAlias board image a

open Classical in
/-- The permission S-mode is meant to have: text is readable, read-only data is
closed, data is not executable, retained devices and the alias are closed and
everything else is open. The CLINT is closed in the window of `AiaRanges`. -/
noncomputable def intendedPermission (board : Board xlen) (image : Image) (a : Nat) : Permission :=
  if image.sbiStart ≤ a ∧ a < image.rodataStart then .r
  else if image.rodataStart ≤ a ∧ a < image.rodataEnd then .none
  else if image.rodataEnd ≤ a ∧ a < image.sbiEnd then .rw
  else if Closed board image a then .none
  else .rwx

/-- The bounds between open and closed device addresses are multiples of four. -/
def AiaRanges.Aligned (d : AiaRanges) : Prop :=
  d.clintStart % 4 = 0 ∧
  (d.clintEnd = d.aplicStart ∨ (d.clintEnd % 4 = 0 ∧ d.aplicStart % 4 = 0)) ∧
  (d.aplicEnd = d.imsicStart ∨ (d.aplicEnd % 4 = 0 ∧ d.imsicStart % 4 = 0)) ∧
  d.imsicEnd % 4 = 0

/-! ## What the programmed entries give -/

/-- The permission that segments in ascending order give the word of `a`. -/
def segmentPermission : List (Permission × Nat) → Nat → Permission
  | [], _ => .none
  | (permission, bound) :: segments, a =>
    if a / 4 < bound / 4 then permission else segmentPermission segments a

/-- Entries `k + 1` onwards carry the segments. -/
def Carries (pmp : Pmp) (k : Nat) (segments : List (Permission × Nat)) : Prop :=
  ∀ i s, segments[i]? = some s →
    (pmp.cfg (k + 1 + i)).permission = s.1 ∧ pmp.addr (k + 1 + i) = s.2 / 4

theorem Carries.permission {pmp : Pmp} {segments : List (Permission × Nat)} {k last entries a : Nat}
    (h : Carries pmp k segments) (hc : pmp.TorChain last) (hk : k + segments.length = last)
    (hlast : last < entries) (hle : ∀ j ≤ k, pmp.addr j ≤ a / 4)
    (hex : ∃ s ∈ segments, a / 4 < s.2 / 4) :
    pmp.supervisorPermission entries a = segmentPermission segments a := by
  induction segments generalizing k with
  | nil => simp at hex
  | cons s segments ih =>
    obtain ⟨permission, bound⟩ := s
    rw [List.length_cons] at hk
    have h0 : (pmp.cfg (k + 1)).permission = permission ∧ pmp.addr (k + 1) = bound / 4 :=
      h 0 (permission, bound) rfl
    unfold segmentPermission
    by_cases hlt : a / 4 < bound / 4
    · rw [if_pos hlt, ← h0.1]
      refine hc.permission hlast (by omega) (by omega) ?_ fun j hj => hle j (by omega)
      rw [h0.2]
      exact hlt
    · rw [if_neg hlt]
      apply ih (k := k + 1)
      · intro i s hs
        have := h (i + 1) s (by rw [List.getElem?_cons_succ]; exact hs)
        rwa [show k + 1 + 1 + i = k + 1 + (i + 1) by omega]
      · omega
      · intro j hj
        rcases Nat.lt_or_ge k j with hkj | hkj
        · rw [show j = k + 1 by omega, h0.2]
          omega
        · exact hle j hkj
      · obtain ⟨s, hs, hslt⟩ := hex
        rcases List.mem_cons.mp hs with rfl | hs
        · exact absurd hslt hlt
        · exact ⟨s, hs, hslt⟩

theorem programEntries_append (l m : List (Range × Permission × Nat)) (index : Nat) (pmp : Pmp) :
    programEntries xlen index (l ++ m) pmp =
      (programEntries xlen index l pmp).bind (programEntries xlen (index + l.length) m) := by
  induction l generalizing index pmp with
  | nil => rfl
  | cons e l ih =>
    obtain ⟨range, permission, value⟩ := e
    simp only [List.cons_append, programEntries, Option.bind_eq_bind, List.length_cons]
    cases setPmpConfig xlen index range permission false pmp with
    | none => rfl
    | some pmp' =>
      simp only [Option.bind_some, ih]
      rw [Nat.add_right_comm, Nat.add_assoc]

/-- Programming segments from entry 0 on makes a chain that carries them. -/
theorem programEntries_torEntries {segments : List (Permission × Nat)} {pmp pmp' : Pmp}
    (hl : segments.length < 16)
    (h : programEntries xlen 0 (torEntries segments) pmp = some pmp') :
    pmp'.TorChain segments.length ∧ Carries pmp' 0 segments := by
  obtain ⟨q, hq, hset, _⟩ := @programEntries_spec xlen (torEntries segments) 0 pmp
    (by simp [torEntries]; omega)
  obtain rfl : q = pmp' := Option.some.inj (hq.symm.trans h)
  have hseg : ∀ i s, segments[i]? = some s →
      q.cfg (i + 1) = ⟨.tor, s.1, false⟩ ∧ q.addr (i + 1) = s.2 / 4 := by
    intro i s hs
    have := hset (i + 1) (.tor, s.1, s.2 / 4) (by simp [torEntries, hs])
    rwa [Nat.zero_add] at this
  have h0 : q.cfg 0 = ⟨.off, .none, false⟩ ∧ q.addr 0 = 0 := hset 0 (.off, .none, 0) rfl
  refine ⟨⟨?_, h0.2, ?_⟩, ?_⟩
  · rw [h0.1]
  · intro i h1 hi
    obtain ⟨k, rfl⟩ := Nat.exists_eq_add_of_le' h1
    rw [(hseg k segments[k] (List.getElem?_eq_getElem (by omega))).1]
  · intro i s hs
    rw [show 0 + 1 + i = i + 1 by omega, (hseg i s hs).1]
    exact ⟨rfl, (hseg i s hs).2⟩

theorem matches_congr (pmp : Pmp) (i : Nat) {a b : Nat} (h : a / 4 = b / 4) :
    pmp.Matches i a ↔ pmp.Matches i b := by
  unfold Pmp.Matches
  rw [h]

/-- The unit cannot tell the bytes of one word apart. -/
theorem supervisorPermission_congr (pmp : Pmp) (entries : Nat) {a b : Nat} (h : a / 4 = b / 4) :
    pmp.supervisorPermission entries a = pmp.supervisorPermission entries b := by
  unfold Pmp.supervisorPermission
  simp only [matches_congr pmp _ h]

section Layouts

variable {board : Board xlen} {image : Image} {ramStart ramEnd : Nat}

/-- All bounds of the image and its RAM are whole words. -/
def AlignedImage (image : Image) (ramStart ramEnd : Nat) : Prop :=
  ramStart % 4 = 0 ∧ ramEnd % 4 = 0 ∧ image.sbiStart % 4 = 0 ∧ image.sbiEnd % 4 = 0 ∧
    image.rodataStart % 4 = 0 ∧ image.rodataEnd % 4 = 0

theorem usizeMax_div (x : Xlen) : x.usizeMax / 4 * 4 + 4 = x.words := by
  cases x <;> decide

theorem intendedPermission_of_closed_iff {P : Prop} [Decidable P] {a : Nat}
    (h : Closed board image a ↔ P) :
    intendedPermission board image a =
      if image.sbiStart ≤ a ∧ a < image.rodataStart then .r
      else if image.rodataStart ≤ a ∧ a < image.rodataEnd then .none
      else if image.rodataEnd ≤ a ∧ a < image.sbiEnd then .rw
      else if P then .none
      else .rwx := by
  unfold intendedPermission
  simp only [h]

theorem closed_iff_holds {imsic : ImsicInfo xlen} {d : AiaRanges} (a : Nat)
    (hi : board.retainedImsic = some imsic) (hd : board.aiaRanges imsic = some d) :
    Closed board image a ↔ d.Holds a := by
  simp [Closed, InAlias, hi, hd]

theorem closed_iff_alias (a : Nat) (hi : board.retainedImsic = none) :
    Closed board image a ↔ ∃ offset ∈ board.noncacheableAliasOffset,
      image.sbiStart + offset ≤ a ∧ a < image.sbiEnd + offset := by
  simp [Closed, InAlias, hi]

/-- An aligned bound separates the addresses themselves, not only their words. -/
theorem segmentPermission_cons_of_aligned {permission : Permission} {bound : Nat}
    (hal : bound % 4 = 0) (segments : List (Permission × Nat)) (a : Nat) :
    segmentPermission ((permission, bound) :: segments) a =
      if a < bound then permission else segmentPermission segments a := by
  have hiff : a / 4 < bound / 4 ↔ a < bound := by omega
  simp only [segmentPermission, hiff]

theorem segmentPermission_image (hal : AlignedImage image ramStart ramEnd)
    (ho : OrderedImage xlen image ramStart ramEnd) (rest : List (Permission × Nat)) (a : Nat) :
    segmentPermission (imageSegments image ramStart ramEnd ++ rest) a =
      if image.sbiStart ≤ a ∧ a < image.rodataStart then .r
      else if image.rodataStart ≤ a ∧ a < image.rodataEnd then .none
      else if image.rodataEnd ≤ a ∧ a < image.sbiEnd then .rw
      else if a < ramEnd then .rwx
      else segmentPermission rest a := by
  obtain ⟨h1, h2, h3, h4, h5, h6⟩ := hal
  obtain ⟨o1, o2, o3, o4, o5, _⟩ := ho
  simp only [imageSegments, List.cons_append, List.nil_append, segmentPermission_cons_of_aligned,
    h1, h2, h3, h4, h5, h6]
  split_ifs <;> first | rfl | omega

theorem segmentPermission_aia {d : AiaRanges} (hd : d.Ordered ramStart) (hal : d.Aligned)
    (rest : List (Permission × Nat)) (a : Nat) :
    segmentPermission (aiaSegments d ++ rest) a =
      if d.Holds a then .none else if a < d.imsicEnd then .rwx else segmentPermission rest a := by
  obtain ⟨h1, h2, h3, h4⟩ := hal
  obtain ⟨o1, o2, o3, o4, o5, o6⟩ := hd
  simp only [aiaSegments, List.cons_append, List.nil_append, segmentPermission]
  by_cases hh : d.Holds a
  · rw [if_pos hh]
    unfold AiaRanges.Holds at hh
    split_ifs <;> first | rfl | omega
  · rw [if_neg hh]
    unfold AiaRanges.Holds at hh
    split_ifs <;> first | rfl | omega

/-- The AIA layout: aligned device bounds are enough. -/
theorem aia_permission {imsic : ImsicInfo xlen} {d : AiaRanges} {pmp pmp' : Pmp} {entries a : Nat}
    (hi : board.retainedImsic = some imsic) (hd : board.aiaRanges imsic = some d)
    (hal : AlignedImage image ramStart ramEnd) (ho : OrderedImage xlen image ramStart ramEnd)
    (hod : d.Ordered ramStart) (hda : d.Aligned) (he : 16 ≤ entries)
    (hp : programEntries xlen 0 (torEntries (aiaSegments d ++ imageSegments image ramStart ramEnd ++
      [(.rwx, xlen.usizeMax)])) pmp = some pmp') (ha : a < xlen.words - 4) :
    pmp'.supervisorPermission entries a = intendedPermission board image a := by
  obtain ⟨hc, hs⟩ := programEntries_torEntries (by simp [aiaSegments, imageSegments]) hp
  have hmax := usizeMax_div xlen
  rw [hs.permission hc (Nat.zero_add _) (by simp [aiaSegments, imageSegments]; omega)
      (by intro j hj; rw [Nat.le_zero.mp hj, hc.base]; exact Nat.zero_le _)
      ⟨(.rwx, xlen.usizeMax), by simp, by simp only; omega⟩,
    List.append_assoc, segmentPermission_aia hod hda, segmentPermission_image hal ho,
    intendedPermission_of_closed_iff (closed_iff_holds a hi hd)]
  obtain ⟨o1, o2, o3, o4, o5, _⟩ := ho
  have := hod.imsic_le_ram
  by_cases hh : d.Holds a
  · have hlt : a < d.imsicEnd := by
      have := hod.clint_le_aplic
      have := hod.aplic
      have := hod.aplic_le_imsic
      have := hod.imsic
      unfold AiaRanges.Holds at hh
      omega
    simp only [if_pos hh]
    split_ifs <;> first | rfl | omega
  · simp only [if_neg hh, segmentPermission]
    split_ifs <;> first | rfl | omega

theorem plain_permission {pmp pmp' : Pmp} {entries a : Nat} (hi : board.retainedImsic = none)
    (hn : board.noncacheableAliasOffset = none) (hal : AlignedImage image ramStart ramEnd)
    (ho : OrderedImage xlen image ramStart ramEnd) (he : 16 ≤ entries)
    (hp : programEntries xlen 0 (torEntries (imageSegments image ramStart ramEnd ++
      [(.rwx, xlen.usizeMax)])) pmp = some pmp') (ha : a < xlen.words - 4) :
    pmp'.supervisorPermission entries a = intendedPermission board image a := by
  obtain ⟨hc, hs⟩ := programEntries_torEntries (by simp [imageSegments]) hp
  have hmax := usizeMax_div xlen
  rw [hs.permission hc (Nat.zero_add _) (by simp [imageSegments]; omega)
      (by intro j hj; rw [Nat.le_zero.mp hj, hc.base]; exact Nat.zero_le _)
      ⟨(.rwx, xlen.usizeMax), by simp, by simp only; omega⟩,
    segmentPermission_image hal ho,
    intendedPermission_of_closed_iff (P := False) (by simp [closed_iff_alias a hi, hn])]
  simp only [segmentPermission, if_false]
  split_ifs <;> first | rfl | omega

theorem matches_all_ones {pmp : Pmp} {i a : Nat} (hr : (pmp.cfg i).range = .napot)
    (hv : pmp.addr i = xlen.usizeMax) (ha : a < xlen.words) : pmp.Matches i a := by
  have hblock : (xlen.usizeMax ^^^ (xlen.usizeMax + 1)) + 1 = 2 * xlen.words := by
    cases xlen <;> decide
  have hmax : xlen.usizeMax < 2 * xlen.words := by
    cases xlen <;> decide
  unfold Pmp.Matches
  rw [hr]
  simp only [hv, hblock]
  rw [Nat.div_eq_of_lt hmax, Nat.div_eq_of_lt (by omega)]

/-- A power of two that no RAM byte reaches keeps the words of the image apart. -/
theorem alias_aligned {offset : Nat} (hp : offset.isPowerOfTwo) (hr : ramEnd ≤ offset)
    (hal : AlignedImage image ramStart ramEnd) : offset % 4 = 0 ∨ ramEnd = 0 := by
  obtain ⟨k, rfl⟩ := hp
  have := hal.2.1
  match k with
  | 0 => exact Or.inr (by omega)
  | 1 => exact Or.inr (by omega)
  | k + 2 =>
    left
    rw [Nat.pow_add]
    exact Nat.mul_mod_left _ _

/-- The layout with an alias: addresses of the alias count, even beyond a word. -/
theorem alias_permission {pmp q pmp' : Pmp} {entries offset a : Nat}
    (hi : board.retainedImsic = none) (hn : board.noncacheableAliasOffset = some offset)
    (hpow : offset.isPowerOfTwo) (hr : ramEnd ≤ offset)
    (hal : AlignedImage image ramStart ramEnd) (ho : OrderedImage xlen image ramStart ramEnd)
    (he : 16 ≤ entries)
    (hq : programEntries xlen 0 (torEntries (imageSegments image ramStart ramEnd)) pmp = some q)
    (hp : programEntries xlen 7 [(.off, .none, (image.sbiStart + offset) / 4),
      (.tor, .none, (image.sbiEnd + offset) / 4), (.napot, .rwx, xlen.usizeMax)] q = some pmp')
    (ha : a < xlen.words ∨ InAlias board image a) :
    pmp'.supervisorPermission entries a = intendedPermission board image a := by
  obtain ⟨hc, hs⟩ := programEntries_torEntries (by simp [imageSegments]) hq
  obtain ⟨r, hr', hset, hkeep⟩ := @programEntries_spec xlen
    [(.off, .none, (image.sbiStart + offset) / 4), (.tor, .none, (image.sbiEnd + offset) / 4),
      (.napot, .rwx, xlen.usizeMax)] 7 q (by simp)
  obtain rfl : r = pmp' := Option.some.inj (hr'.symm.trans hp)
  have h7 : r.cfg 7 = ⟨.off, .none, false⟩ ∧ r.addr 7 = (image.sbiStart + offset) / 4 :=
    hset 0 _ rfl
  have h8 : r.cfg 8 = ⟨.tor, .none, false⟩ ∧ r.addr 8 = (image.sbiEnd + offset) / 4 :=
    hset 1 _ rfl
  have h9 : r.cfg 9 = ⟨.napot, .rwx, false⟩ ∧ r.addr 9 = xlen.usizeMax := hset 2 _ rfl
  have hc' : r.TorChain 6 := by
    refine ⟨?_, ?_, fun i h1 hi => ?_⟩
    · rw [(hkeep 0 (by omega)).1, hc.off]
    · rw [(hkeep 0 (by omega)).2, hc.base]
    · rw [(hkeep i (by omega)).1]
      exact hc.tor i h1 hi
  have hs' : Carries r 0 (imageSegments image ramStart ramEnd) := by
    intro i s hi
    have hlt : i < 6 := (List.getElem?_eq_some_iff.mp hi).1
    rw [(hkeep (0 + 1 + i) (by omega)).1, (hkeep (0 + 1 + i) (by omega)).2]
    exact hs i s hi
  have hclosed : Closed board image a ↔
      image.sbiStart + offset ≤ a ∧ a < image.sbiEnd + offset := by
    simp [closed_iff_alias a hi, hn]
  rw [intendedPermission_of_closed_iff hclosed]
  have halign := alias_aligned hpow hr hal
  obtain ⟨o1, o2, o3, o4, o5, _⟩ := id ho
  by_cases hram : a < ramEnd
  · have := hal.2.1
    rw [hs'.permission hc' rfl (by omega)
        (by intro j hj; rw [Nat.le_zero.mp hj, hc'.base]; exact Nat.zero_le _)
        ⟨(.rwx, ramEnd), by simp [imageSegments], by simp only; omega⟩]
    have himage := segmentPermission_image hal ho [] a
    rw [List.append_nil] at himage
    rw [himage]
    split_ifs <;> first | rfl | omega
  · have hbelow : ∀ j ≤ 6, ¬ r.Matches j a := by
      refine hc'.not_matches fun j hj => ?_
      obtain ⟨a1, a2, a3, a4, a5, a6⟩ := hal
      rcases Nat.eq_zero_or_pos j with rfl | hpos
      · rw [hc'.base]
        exact Nat.zero_le _
      · obtain ⟨k, rfl⟩ := Nat.exists_eq_add_of_le hpos
        have hk : k < (imageSegments image ramStart ramEnd).length := by
          simp [imageSegments]
          omega
        have hb := (hs' k _ (List.getElem?_eq_getElem hk)).2
        have hle : ∀ s ∈ imageSegments image ramStart ramEnd, s.2 ≤ ramEnd := by
          simp only [imageSegments, List.mem_cons, List.not_mem_nil, or_false]
          rintro s (rfl | rfl | rfl | rfl | rfl | rfl) <;> simp only <;> omega
        have := hle _ (List.getElem_mem hk)
        rw [Nat.zero_add] at hb
        show r.addr (1 + k) ≤ a / 4
        omega
    have h7' : ¬ r.Matches 7 a := by
      unfold Pmp.Matches
      rw [h7.1]
      exact id
    have h8' : r.Matches 8 a ↔ image.sbiStart + offset ≤ a ∧ a < image.sbiEnd + offset := by
      obtain ⟨a1, a2, a3, a4, a5, a6⟩ := hal
      unfold Pmp.Matches
      rw [h8.1]
      simp only [show (8 : Nat) ≠ 0 by decide, if_false, Nat.reduceSub, h7.2, h8.2]
      omega
    by_cases hin : image.sbiStart + offset ≤ a ∧ a < image.sbiEnd + offset
    · rw [Pmp.supervisorPermission_of_first (show 8 < entries by omega) (h8'.mpr hin), h8.1]
      · split_ifs <;> first | rfl | omega
      · intro j hj
        rcases Nat.lt_or_ge 6 j with h | h
        · rwa [show j = 7 by omega]
        · exact hbelow j h
    · have hword : a < xlen.words := by
        refine ha.resolve_right fun hal => hin ?_
        simpa [InAlias, hi, hn] using hal
      have hm := matches_all_ones (by rw [h9.1]) h9.2 hword
      rw [Pmp.supervisorPermission_of_first (show 9 < entries by omega) hm, h9.1]
      · split_ifs <;> first | rfl | omega
      · intro j hj
        rcases Nat.lt_or_ge 6 j with h | h
        · rcases Nat.lt_or_ge 7 j with h' | h'
          · rw [show j = 8 by omega, h8']
            exact hin
          · rwa [show j = 7 by omega]
        · exact hbelow j h

/-- What a run of `set_pmp` that does not panic has programmed. -/
theorem setPmp_cases {pmp pmp' : Pmp} (h : setPmp board image ramStart ramEnd pmp = some pmp') :
    AlignedImage image ramStart ramEnd ∧
    ((∃ imsic d, board.retainedImsic = some imsic ∧ board.aiaRanges imsic = some d ∧
        programEntries xlen 0 (torEntries (aiaSegments d ++ imageSegments image ramStart ramEnd ++
          [(.rwx, xlen.usizeMax)])) pmp = some pmp') ∨
      (board.retainedImsic = none ∧ board.noncacheableAliasOffset = none ∧
        programEntries xlen 0 (torEntries (imageSegments image ramStart ramEnd ++
          [(.rwx, xlen.usizeMax)])) pmp = some pmp') ∨
      (board.retainedImsic = none ∧ ∃ offset q, board.noncacheableAliasOffset = some offset ∧
        offset.isPowerOfTwo ∧ ramEnd ≤ offset ∧
        programEntries xlen 0 (torEntries (imageSegments image ramStart ramEnd)) pmp = some q ∧
        programEntries xlen 7 [(.off, .none, (image.sbiStart + offset) / 4),
          (.tor, .none, (image.sbiEnd + offset) / 4), (.napot, .rwx, xlen.usizeMax)] q =
            some pmp')) := by
  unfold setPmp at h
  simp only [Option.bind_eq_bind, Option.bind_eq_some_iff, Option.guard_eq_some', exists_const] at h
  refine ⟨h.1, ?_⟩
  obtain ⟨-, h⟩ := h
  cases hi : board.retainedImsic with
  | some imsic =>
    simp only [hi, Option.bind_eq_some_iff] at h
    obtain ⟨d, hd, hp⟩ := h
    exact Or.inl ⟨imsic, d, rfl, hd, hp⟩
  | none =>
    simp only [hi, Option.bind_eq_some_iff] at h
    obtain ⟨q, hq, h⟩ := h
    cases hn : board.noncacheableAliasOffset with
    | none =>
      simp only [hn] at h
      refine Or.inr (Or.inl ⟨rfl, rfl, ?_⟩)
      rw [torEntries, List.map_append, ← List.cons_append, programEntries_append]
      exact Option.bind_eq_some_iff.mpr ⟨q, hq, h⟩
    | some offset =>
      simp only [hn, Option.bind_eq_some_iff, Option.guard_eq_some', exists_const] at h
      obtain ⟨⟨hpow, hle⟩, -, -, -, q', hq', -, hp⟩ := h
      refine Or.inr (Or.inr ⟨rfl, offset, q, rfl, hpow, hle, hq, ?_⟩)
      exact (programEntries_append [_, _] [_] 7 q).trans (Option.bind_eq_some_iff.mpr ⟨q', hq', hp⟩)

theorem aiaRanges_nonempty {imsic : ImsicInfo xlen} {d : AiaRanges}
    (hd : board.aiaRanges imsic = some d) (ho : d.Ordered ramStart) :
    d.clintStart < d.clintEnd ∧ d.aplicStart < d.aplicEnd ∧ d.imsicStart < d.imsicEnd := by
  have hw := xlen.four_gigabytes_le_words
  obtain ⟨o1, _, _, _, o5, _⟩ := ho
  simp only [Board.aiaRanges, Option.bind_eq_bind, Option.bind_eq_some_iff] at hd
  obtain ⟨aplic, _, hd⟩ := hd
  cases hd
  -- A sum that wraps around would put the end below the start.
  have hwrap : ∀ s k : Nat, 0 < k → k < xlen.words → s ≤ (s + k) % xlen.words →
      s < (s + k) % xlen.words := by
    intro s k hk hkw hle
    refine lt_of_le_of_ne hle fun heq => ?_
    have hs : s < xlen.words := heq ▸ Nat.mod_lt _ xlen.words_pos
    rcases Nat.lt_or_ge (s + k) xlen.words with h | h
    · rw [Nat.mod_eq_of_lt h] at heq
      omega
    · rw [Nat.mod_eq_sub_mod h, Nat.mod_eq_of_lt (by omega)] at heq
      omega
  refine ⟨hwrap _ _ (by decide) (lt_of_lt_of_le (by decide) hw) o1, aplic.start_lt_stop, ?_⟩
  simp only at o5 ⊢
  cases hm : ((imsic.hartFiles.filterMap id).map PhysAddrRange.stop).max? with
  | none =>
    rw [hm] at o5
    exact hwrap _ _ (by decide) (lt_of_lt_of_le (by decide) hw) o5
  | some stop =>
    obtain ⟨file, hf, rfl⟩ := List.mem_map.mp (List.max?_mem hm)
    exact imsic.base_lt_stop file hf

/-- If the unit gives the intended permissions, they do not vary inside a word,
so no bound between open and closed addresses does. -/
theorem aligned_of_permissions {imsic : ImsicInfo xlen} {d : AiaRanges} {pmp : Pmp} {entries : Nat}
    (hi : board.retainedImsic = some imsic) (hd : board.aiaRanges imsic = some d)
    (hal : AlignedImage image ramStart ramEnd) (ho : OrderedImage xlen image ramStart ramEnd)
    (hod : d.Ordered ramStart)
    (h : ∀ a, a < xlen.words - 4 →
      pmp.supervisorPermission entries a = intendedPermission board image a) : d.Aligned := by
  obtain ⟨n1, n2, n3⟩ := aiaRanges_nonempty hd hod
  obtain ⟨o1, o2, o3, o4, o5, o6⟩ := hod
  obtain ⟨i1, i2, i3, i4, i5, i6⟩ := ho
  have hram : ramStart ≤ xlen.words - 4 := by
    have := hal.1
    have := xlen.four_dvd_words
    have := xlen.words_pos
    unfold Xlen.usizeMax at i6
    omega
  -- Below RAM the image plays no part.
  have hbelow : ∀ a < ramStart, intendedPermission board image a =
      if d.Holds a then .none else .rwx := by
    intro a ha
    rw [intendedPermission_of_closed_iff (closed_iff_holds a hi hd), if_neg (by omega),
      if_neg (by omega), if_neg (by omega)]
  have hword : ∀ b, 0 < b → b < ramStart → b % 4 ≠ 0 → (d.Holds (b - 1) ↔ d.Holds b) := by
    intro b hpos hlt hb
    have h₁ := supervisorPermission_congr pmp entries (show (b - 1) / 4 = b / 4 by omega)
    rw [h _ (by omega), h _ (by omega), hbelow _ (by omega), hbelow _ hlt] at h₁
    by_cases hx : d.Holds (b - 1) <;> by_cases hy : d.Holds b <;> simp [hx, hy] at h₁ ⊢
  unfold AiaRanges.Holds at hword
  refine ⟨?_, ?_, ?_, ?_⟩
  · by_contra hb
    have := hword d.clintStart (by omega) (by omega) hb
    omega
  · by_contra hb
    rcases Nat.eq_zero_or_pos (d.clintEnd % 4) with hz | hz
    · have := hword d.aplicStart (by omega) (by omega) (by omega)
      omega
    · have := hword d.clintEnd (by omega) (by omega) (by omega)
      omega
  · by_contra hb
    rcases Nat.eq_zero_or_pos (d.aplicEnd % 4) with hz | hz
    · have := hword d.imsicStart (by omega) (by omega) (by omega)
      omega
    · have := hword d.aplicEnd (by omega) (by omega) (by omega)
      omega
  · by_contra hb
    have := hal.1
    have := hword d.imsicEnd (by omega) (by omega) hb
    omega

/-- The programmed entries give every address its intended permission exactly
when the bounds of the retained device ranges fall on word boundaries. -/
theorem pmp_isolation_iff {pmp pmp' : Pmp} {entries : Nat}
    (h : setPmp board image ramStart ramEnd pmp = some pmp')
    (ho : OrderedLayout board image ramStart ramEnd) (he : 16 ≤ entries) :
    (∀ a, a < xlen.words - 4 ∨ InAlias board image a →
      pmp'.supervisorPermission entries a = intendedPermission board image a) ↔
    ∀ imsic ∈ board.retainedImsic, ∀ d ∈ board.aiaRanges imsic, d.Aligned := by
  obtain ⟨hal, ⟨imsic, d, hi, hd, hp⟩ | ⟨hi, hn, hp⟩ | ⟨hi, offset, q, hn, hpow, hr, hq, hp⟩⟩ :=
    setPmp_cases h
  · have hod := ho.devices imsic hi d hd
    constructor
    · intro hall imsic' hi' d' hd'
      obtain rfl : imsic = imsic' := Option.some.inj (hi.symm.trans hi')
      obtain rfl : d = d' := Option.some.inj (hd.symm.trans hd')
      exact aligned_of_permissions hi hd hal ho.image hod fun a ha => hall a (Or.inl ha)
    · intro hda a ha
      have hlt : a < xlen.words - 4 := ha.resolve_right fun hin => by simp [InAlias, hi] at hin
      exact aia_permission hi hd hal ho.image hod (hda imsic hi d hd) he hp hlt
  · refine ⟨fun _ => by simp [hi], fun _ a ha => ?_⟩
    have hlt : a < xlen.words - 4 := ha.resolve_right fun hin => by simp [InAlias, hn] at hin
    exact plain_permission hi hn hal ho.image he hp hlt
  · refine ⟨fun _ => by simp [hi], fun _ a ha => ?_⟩
    exact alias_permission hi hn hpow hr hal ho.image he hq hp
      (ha.imp_left fun hlt => hlt.trans_le (Nat.sub_le ..))

end Layouts

/-! ## A QEMU board -/

/-- All entries off. -/
def Pmp.reset : Pmp := ⟨fun _ => ⟨.off, .none, false⟩, fun _ => 0⟩

/-- A QEMU `virt` board that keeps its IMSIC, with a machine APLIC of the given size. -/
def qemuAiaBoard (aplicEnd : Nat) (h : 0x0c000000 < aplicEnd) (hw : aplicEnd < 2 ^ 64) :
    Board .rv64 where
  usesImsic := true
  isQemuVirt := true
  imsic := some ⟨0x24000000, [some ⟨0x24000000, 0x24001000, by decide, by decide⟩], by decide⟩
  clint := none
  machineAplic := some ⟨0x0c000000, aplicEnd, h, hw⟩
  noncacheableAliasOffset := none

def qemuImage : Image := ⟨0x80000000, 0x80060000, 0x80030000, 0x80040000⟩

theorem qemuAiaBoard_ranges {aplicEnd : Nat} (h : 0x0c000000 < aplicEnd) (hw : aplicEnd < 2 ^ 64) :
    ∀ imsic ∈ (qemuAiaBoard aplicEnd h hw).retainedImsic,
      ∀ d ∈ (qemuAiaBoard aplicEnd h hw).aiaRanges imsic,
        d = ⟨0x02000000, 0x02010000, 0x0c000000, aplicEnd, 0x24000000, 0x24001000⟩ := by
  simp [Board.retainedImsic, Board.aiaRanges, qemuAiaBoard, qemuVirtClintBase, qemuVirtClintSize,
    Xlen.words, Xlen.bits]

theorem qemuAiaBoard_ordered {aplicEnd : Nat} (h : 0x0c000000 < aplicEnd)
    (hle : aplicEnd ≤ 0x24000000) :
    OrderedLayout (qemuAiaBoard aplicEnd h (by omega)) qemuImage 0x80000000 0x90000000 := by
  refine ⟨⟨by decide, by decide, by decide, by decide, by decide, by decide⟩, ?_⟩
  intro imsic hi d hd
  obtain rfl := qemuAiaBoard_ranges h (by omega) imsic hi d hd
  exact ⟨by simp, by simp, h.le, hle, by simp, by simp⟩

theorem pmp_isolation_qemu_aia :
    ∃ pmp', setPmp (qemuAiaBoard 0x0c008000 (by decide) (by decide)) qemuImage 0x80000000
        0x90000000 Pmp.reset = some pmp' ∧ ∀ a < 2 ^ 64 - 4,
      pmp'.supervisorPermission 16 a =
        intendedPermission (qemuAiaBoard 0x0c008000 (by decide) (by decide)) qemuImage a := by
  obtain ⟨pmp', h⟩ : ∃ pmp', setPmp (qemuAiaBoard 0x0c008000 (by decide) (by decide)) qemuImage
      0x80000000 0x90000000 Pmp.reset = some pmp' := ⟨_, rfl⟩
  refine ⟨pmp', h, fun a ha => ?_⟩
  refine (pmp_isolation_iff h (qemuAiaBoard_ordered (by decide) (by decide)) le_rfl).mpr ?_ a
    (Or.inl ha)
  intro imsic hi d hd
  obtain rfl := qemuAiaBoard_ranges _ _ imsic hi d hd
  exact ⟨by simp, by simp, by simp, by simp⟩

/-- An APLIC whose size is no multiple of four: its last byte stays open. -/
theorem aplic_tail_open :
    ∃ pmp', setPmp (qemuAiaBoard 0x0c008001 (by decide) (by decide)) qemuImage 0x80000000
        0x90000000 Pmp.reset = some pmp' ∧
      OrderedLayout (qemuAiaBoard 0x0c008001 (by decide) (by decide)) qemuImage 0x80000000
        0x90000000 ∧
      pmp'.supervisorPermission 16 0x0c008000 = .rwx ∧
      intendedPermission (qemuAiaBoard 0x0c008001 (by decide) (by decide)) qemuImage 0x0c008000 =
        .none := by
  refine ⟨_, rfl, qemuAiaBoard_ordered (by decide) (by decide), by decide, ?_⟩
  rw [intendedPermission_of_closed_iff (closed_iff_holds _ rfl rfl)]
  decide

end RustSbi.Firmware
