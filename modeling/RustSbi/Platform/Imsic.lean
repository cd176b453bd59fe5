import RustSbi.Lib.BitFields
import RustSbi.Lib.Fallible
import RustSbi.Memory.Mmio

/-!
Machine-level IMSIC interrupt files (`platform/discovery/imsic.rs`,
`platform/info.rs`, `driver/aia.rs`). The device tree gives the widths and
shifts of the group, hart and guest fields of a file's address, the register
sets, and the harts that the files are wired to; discovery refuses what does
not fit and gives every enabled hart one 4 KiB file.
-/

namespace RustSbi.Platform

open BitFields Checked Memory

variable {xlen : Xlen}

/-- `IMSIC_FILE_SPAN`. -/
def imsicFileSpan : Nat := 4096

/-- `IMSIC_FILE_SPAN.trailing_zeros()`. -/
def filePageShift : Nat := 12

/-- `MachineInterruptFile`. -/
structure MachineInterruptFile where
  hartId : Nat
  fileIndex : Nat
  deriving DecidableEq, Repr

/-- `CpuInterruptController`. -/
structure CpuInterruptController where
  phandle : Nat
  hartId : Nat
  deriving DecidableEq, Repr

/-- `HartEnableList`. -/
abbrev HartEnableList := Vector Bool numHartMax

/-! ## Address layout -/

/-- `usize::checked_shl`: only the shift amount is checked. -/
def checkedShl (xlen : Xlen) (value shift : Nat) : Option Nat :=
  if shift < xlen.bits then some (value * 2 ^ shift % xlen.words) else none

/-- `ImsicAddressLayout`. -/
structure ImsicAddressLayout where
  machineBase : Nat
  hartIndexBits : Nat
  groupIndexShift : Nat
  hartIndexShift : Nat
  deriving DecidableEq, Repr

/-- `ImsicAddressLayout::machine_file_address`. -/
def ImsicAddressLayout.machineFileAddress (xlen : Xlen) (layout : ImsicAddressLayout)
    (hartIndex groupIndex : Nat) : Option Nat := do
  let groupOffset ←
    (if groupIndex = 0 then some 0 else checkedShl xlen groupIndex layout.groupIndexShift)
  let hartOffset ← checkedShl xlen hartIndex layout.hartIndexShift
  checkedAdd xlen (← checkedAdd xlen layout.machineBase groupOffset) hartOffset

/-- `u32::checked_add`. -/
def u32CheckedAdd (a b : Nat) : Option Nat := if a + b < 2 ^ 32 then some (a + b) else none

/-- `validate_topology`. -/
def validateTopology (xlen : Xlen)
    (guestIndexBits hartIndexBits groupIndexBits groupIndexShift filePageShift : Nat) :
    Result PUnit := do
  if 7 < guestIndexBits ∨ 15 < hartIndexBits ∨ 7 < groupIndexBits ∨ 55 < groupIndexShift then
    throw .invalidArgs
  else
    let hartIndexShift ← okOr (u32CheckedAdd filePageShift guestIndexBits) .overflow
    let hartIndexEnd ← okOr (u32CheckedAdd hartIndexShift hartIndexBits) .overflow
    let groupIndexEnd ← okOr (u32CheckedAdd groupIndexShift groupIndexBits) .overflow
    if xlen.bits < hartIndexEnd ∨
        (groupIndexBits ≠ 0 ∧ (groupIndexShift < hartIndexEnd ∨ xlen.bits < groupIndexEnd)) then
      throw .invalidArgs
    else return ⟨⟩

/-- `low_bit_mask`. -/
def lowBitMask (bits : Nat) : Except Panic Nat := do
  if bits = 0 then return 0
  else subUnsigned (← shlUnsigned 32 1 bits) 1

/-- `[Option<DeviceRegisterRange>; NUM_HART_MAX]`. -/
abbrev HartFiles (xlen : Xlen) := Vector (Option (DeviceRegisterRange xlen)) numHartMax

/-- The hart and group index of a file, cut from its file index. -/
def fileIndices (layout : ImsicAddressLayout) (hartIndexMask groupIndexMask fileIndex : Nat) :
    Except Panic (Nat × Nat) := do
  return (fileIndex &&& hartIndexMask,
    (← shrUnsigned 32 fileIndex layout.hartIndexBits) &&& groupIndexMask)

/-- The loop of `map_hart_files` over the remaining files. -/
def mapHartFilesLoop (layout : ImsicAddressLayout) (registerRanges : List (DeviceRegisterRange xlen))
    (maxFileCount hartIndexMask groupIndexMask : Nat) :
    List MachineInterruptFile → HartFiles xlen → Fallible Error (HartFiles xlen)
  | [], hartFiles => return hartFiles
  | machineFile :: rest, hartFiles => do
    if h : machineFile.hartId < numHartMax ∧ machineFile.fileIndex < maxFileCount then
      let (hartIndex, groupIndex) ←
        fileIndices layout hartIndexMask groupIndexMask machineFile.fileIndex
      let address ← okOr (layout.machineFileAddress xlen hartIndex groupIndex) .overflow
      let file ← PhysAddrRange.fromStartLen xlen address imsicFileSpan
      let registerRange ← okOr (registerRanges.find? (·.contains file)) .invalidArgs
      let offset ← subUnsigned file.start registerRange.start
      let part ← registerRange.subrange offset imsicFileSpan
      mapHartFilesLoop layout registerRanges maxFileCount hartIndexMask groupIndexMask rest
        (hartFiles.set machineFile.hartId (some part) h.1)
    else throw .invalidArgs

/-- `map_hart_files`. -/
def mapHartFiles (layout : ImsicAddressLayout) (registerRanges : List (DeviceRegisterRange xlen))
    (machineFiles : List MachineInterruptFile) (enabledHarts : HartEnableList)
    (groupIndexBits : Nat) : Fallible Error (HartFiles xlen) := do
  let topologyBits ← addUnsigned 32 layout.hartIndexBits groupIndexBits
  let maxFileCount ← shlUnsigned 64 1 topologyBits
  let hartIndexMask ← lowBitMask layout.hartIndexBits
  let groupIndexMask ← lowBitMask groupIndexBits
  let hartFiles ← mapHartFilesLoop layout registerRanges maxFileCount hartIndexMask groupIndexMask
    machineFiles (Vector.replicate numHartMax none)
  if ∃ hartId : Fin numHartMax, enabledHarts[hartId] = true ∧ hartFiles[hartId] = none then
    throw .invalidArgs
  else return hartFiles

/-! ## The device-tree node -/

/-- The properties of the IMSIC node that discovery reads; cells are `u32`. -/
structure ImsicNode where
  interruptsExtended : Option (List Nat)
  numIds : Option Nat
  hartIndexBits : Option Nat
  groupIndexBits : Option Nat
  groupIndexShift : Option Nat
  guestIndexBits : Option Nat

/-- `ImsicInfo`. -/
structure ImsicInfo (xlen : Xlen) where
  layout : ImsicAddressLayout
  numIds : Nat
  ipiIid : Nat
  hartFiles : HartFiles xlen

/-- `interrupt_identity_count`. -/
def interruptIdentityCount (node : ImsicNode) : Result Nat := do
  let numIds ← okOr node.numIds .invalidArgs
  if 63 ≤ numIds ∧ numIds ≤ 2047 then return numIds
  else throw .invalidArgs

/-- The loop of `machine_interrupt_files` over the remaining cells, two an interrupt. -/
def machineInterruptFilesLoop (controllers : List CpuInterruptController) :
    List Nat → (fileIndex : Nat) → Result (List MachineInterruptFile)
  | [], _ => return []
  | [_], _ => throw .invalidArgs
  | phandle :: interrupt :: cells, fileIndex => do
    if interrupt ≠ 11 then machineInterruptFilesLoop controllers cells (fileIndex + 1)
    else
      let controller ← okOr (controllers.find? (·.phandle == phandle)) .invalidArgs
      if fileIndex < 2 ^ 32 then
        let files ← machineInterruptFilesLoop controllers cells (fileIndex + 1)
        return ⟨controller.hartId, fileIndex⟩ :: files
      else throw .invalidArgs

/-- `machine_interrupt_files`. -/
def machineInterruptFiles (node : ImsicNode) (controllers : List CpuInterruptController) :
    Result (List MachineInterruptFile) := do
  machineInterruptFilesLoop controllers (← okOr node.interruptsExtended .invalidArgs) 0

/-- `discover`. -/
def discover (node : ImsicNode) (registerRanges : List (DeviceRegisterRange xlen))
    (controllers : List CpuInterruptController) (enabledHarts : HartEnableList) :
    Fallible Error (Option (ImsicInfo xlen)) := do
  let firstRegisterRange ← okOr registerRanges.head? .invalidArgs
  if registerRanges.any (fun range => !range.hasAlignedBounds imsicFileSpan) then throw .invalidArgs
  else
    let machineBase := firstRegisterRange.start
    let numIds ← interruptIdentityCount node
    let machineFiles ← machineInterruptFiles node controllers
    if machineFiles = [] then return none
    else if 2 ^ 32 ≤ machineFiles.length then throw .invalidArgs
    else
      let defaultHartIndexBits := Nat.size (machineFiles.length - 1)
      let hartIndexBits := node.hartIndexBits.getD defaultHartIndexBits
      let groupIndexBits := node.groupIndexBits.getD 0
      let groupIndexShift := node.groupIndexShift.getD 24
      let guestIndexBits := node.guestIndexBits.getD 0
      validateTopology xlen guestIndexBits hartIndexBits groupIndexBits groupIndexShift filePageShift
      let ipiIid := 1
      if numIds ≤ ipiIid then throw .invalidArgs
      else
        let hartIndexShift ← addUnsigned 32 filePageShift guestIndexBits
        let layout := ⟨machineBase, hartIndexBits, groupIndexShift, hartIndexShift⟩
        let hartFiles ← mapHartFiles layout registerRanges machineFiles enabledHarts groupIndexBits
        return some ⟨layout, numIds, ipiIid, hartFiles⟩

/-! ## Fields that fit -/

/-- What `validate_topology` leaves of the widths and shifts. -/
structure Fits (xlen : Xlen) (layout : ImsicAddressLayout) (groupIndexBits : Nat) : Prop where
  hart_le : layout.hartIndexBits ≤ 15
  group_le : groupIndexBits ≤ 7
  page : filePageShift ≤ layout.hartIndexShift
  shift_lt : layout.hartIndexShift < xlen.bits
  hart_end : layout.hartIndexShift + layout.hartIndexBits ≤ xlen.bits
  groups : groupIndexBits ≠ 0 →
    layout.hartIndexShift + layout.hartIndexBits ≤ layout.groupIndexShift ∧
      layout.groupIndexShift + groupIndexBits ≤ xlen.bits

theorem validateTopology_ok {guestIndexBits hartIndexBits groupIndexBits groupIndexShift : Nat}
    (h : validateTopology xlen guestIndexBits hartIndexBits groupIndexBits groupIndexShift
      filePageShift = .ok ⟨⟩) (machineBase : Nat) :
    Fits xlen ⟨machineBase, hartIndexBits, groupIndexShift, filePageShift + guestIndexBits⟩
      groupIndexBits := by
  have hpage : filePageShift = 12 := rfl
  have hbits : 32 ≤ xlen.bits := by cases xlen <;> decide
  unfold validateTopology at h
  split at h
  · cases h
  · rename_i hbounds
    have hshift : u32CheckedAdd filePageShift guestIndexBits = some (filePageShift + guestIndexBits) :=
      if_pos (by omega)
    have hhart : u32CheckedAdd (filePageShift + guestIndexBits) hartIndexBits =
        some (filePageShift + guestIndexBits + hartIndexBits) := if_pos (by omega)
    have hgroup : u32CheckedAdd groupIndexShift groupIndexBits =
        some (groupIndexShift + groupIndexBits) := if_pos (by omega)
    simp only [hshift, hhart, hgroup, okOr, bind, Except.bind] at h
    split at h
    · cases h
    · rename_i hends
      exact ⟨by dsimp only; omega, by omega, by dsimp only; omega, by dsimp only; omega,
        by dsimp only; omega, fun hne => ⟨by dsimp only; omega, by dsimp only; omega⟩⟩

/-- The hart index of a file. -/
def ImsicAddressLayout.hartIndex (layout : ImsicAddressLayout) (fileIndex : Nat) : Nat :=
  fileIndex % 2 ^ layout.hartIndexBits

/-- The group index of a file. -/
def ImsicAddressLayout.groupIndex (layout : ImsicAddressLayout) (groupIndexBits fileIndex : Nat) :
    Nat :=
  fileIndex / 2 ^ layout.hartIndexBits % 2 ^ groupIndexBits

theorem lowBitMask_eq {bits : Nat} (h : bits < 32) : lowBitMask bits = .ok (2 ^ bits - 1) := by
  unfold lowBitMask
  split
  · subst bits
    rfl
  · have hlt : 1 * 2 ^ bits < 2 ^ 32 := by
      rw [Nat.one_mul]
      exact Nat.pow_lt_pow_right (by decide) h
    rw [shlUnsigned_eq h hlt, ok_bind, Nat.one_mul, subUnsigned_eq (Nat.two_pow_pos bits)]

section Fits

variable {layout : ImsicAddressLayout} {groupIndexBits : Nat}

theorem Fits.fileIndices_eq (hfits : Fits xlen layout groupIndexBits) (fileIndex : Nat) :
    fileIndices layout (2 ^ layout.hartIndexBits - 1) (2 ^ groupIndexBits - 1) fileIndex =
      .ok (layout.hartIndex fileIndex, layout.groupIndex groupIndexBits fileIndex) := by
  have hhart := hfits.hart_le
  rw [fileIndices, shrUnsigned_eq (by omega), ok_bind, Nat.and_two_pow_sub_one_eq_mod,
    Nat.and_two_pow_sub_one_eq_mod]
  rfl

/-- A field that ends inside the word is shifted without losing a bit. -/
theorem checkedShl_eq {value shift bits : Nat} (hvalue : value < 2 ^ bits)
    (hshift : shift < xlen.bits) (hend : shift + bits ≤ xlen.bits) :
    checkedShl xlen value shift = some (value * 2 ^ shift) := by
  have hlt : value * 2 ^ shift < xlen.words := by
    calc value * 2 ^ shift < 2 ^ bits * 2 ^ shift :=
          Nat.mul_lt_mul_of_pos_right hvalue (Nat.two_pow_pos _)
      _ = 2 ^ (shift + bits) := by rw [← Nat.pow_add, Nat.add_comm]
      _ ≤ xlen.words := Nat.pow_le_pow_right (by decide) hend
  rw [checkedShl, if_pos hshift, Nat.mod_eq_of_lt hlt]

/-- The address is the exact sum of the base and the two fields. -/
theorem Fits.machineFileAddress_eq_some_iff (hfits : Fits xlen layout groupIndexBits)
    {hartIndex groupIndex address : Nat} (hhart : hartIndex < 2 ^ layout.hartIndexBits)
    (hgroup : groupIndex < 2 ^ groupIndexBits) :
    layout.machineFileAddress xlen hartIndex groupIndex = some address ↔
      address = layout.machineBase +
        place layout.hartIndexShift layout.groupIndexShift hartIndex groupIndex ∧
      address < xlen.words := by
  have hhartOffset := checkedShl_eq hhart hfits.shift_lt hfits.hart_end
  have hgroupOffset : (if groupIndex = 0 then some 0
      else checkedShl xlen groupIndex layout.groupIndexShift) =
        some (groupIndex * 2 ^ layout.groupIndexShift) := by
    split
    · rename_i hzero
      rw [hzero, Nat.zero_mul]
    · rename_i hpos
      have hbits : groupIndexBits ≠ 0 := by
        rintro rfl
        exact hpos (Nat.lt_one_iff.mp hgroup)
      obtain ⟨-, hend⟩ := hfits.groups hbits
      exact checkedShl_eq hgroup (by omega) hend
  rw [ImsicAddressLayout.machineFileAddress, hgroupOffset, hhartOffset, place]
  simp only [bind, Option.bind_some, Option.bind_eq_some_iff, checkedAdd_eq_some_iff]
  constructor
  · rintro ⟨_, ⟨rfl, -⟩, rfl, hlt⟩
    exact ⟨by omega, hlt⟩
  · rintro ⟨rfl, hlt⟩
    exact ⟨_, ⟨rfl, by omega⟩, by omega, by omega⟩

theorem ImsicAddressLayout.hartIndex_lt (layout : ImsicAddressLayout) (fileIndex : Nat) :
    layout.hartIndex fileIndex < 2 ^ layout.hartIndexBits := Nat.mod_lt _ (Nat.two_pow_pos _)

theorem ImsicAddressLayout.groupIndex_lt (layout : ImsicAddressLayout) (groupIndexBits fileIndex : Nat) :
    layout.groupIndex groupIndexBits fileIndex < 2 ^ groupIndexBits :=
  Nat.mod_lt _ (Nat.two_pow_pos _)

/-- Where a file is, as an exact number. -/
def ImsicAddressLayout.filePlace (layout : ImsicAddressLayout) (groupIndexBits fileIndex : Nat) : Nat :=
  layout.machineBase + place layout.hartIndexShift layout.groupIndexShift
    (layout.hartIndex fileIndex) (layout.groupIndex groupIndexBits fileIndex)

/-- A file index below the bound is determined by its two parts. -/
theorem ImsicAddressLayout.index_inj {fileIndex fileIndex' : Nat}
    (hlt : fileIndex < 2 ^ (layout.hartIndexBits + groupIndexBits))
    (hlt' : fileIndex' < 2 ^ (layout.hartIndexBits + groupIndexBits))
    (hhart : layout.hartIndex fileIndex = layout.hartIndex fileIndex')
    (hgroup : layout.groupIndex groupIndexBits fileIndex = layout.groupIndex groupIndexBits fileIndex') :
    fileIndex = fileIndex' := by
  have hdiv : ∀ n, n < 2 ^ (layout.hartIndexBits + groupIndexBits) →
      layout.groupIndex groupIndexBits n = n / 2 ^ layout.hartIndexBits := by
    intro n hn
    rw [Nat.pow_add] at hn
    exact Nat.mod_eq_of_lt (Nat.div_lt_of_lt_mul hn)
  rw [hdiv _ hlt, hdiv _ hlt'] at hgroup
  exact eq_of_div_mod_eq hgroup hhart

/-- Files with different indices are 4 KiB apart. -/
theorem Fits.filePlace_apart (hfits : Fits xlen layout groupIndexBits) {fileIndex fileIndex' : Nat}
    (hlt : fileIndex < 2 ^ (layout.hartIndexBits + groupIndexBits))
    (hlt' : fileIndex' < 2 ^ (layout.hartIndexBits + groupIndexBits)) (hne : fileIndex ≠ fileIndex') :
    layout.filePlace groupIndexBits fileIndex + imsicFileSpan ≤
        layout.filePlace groupIndexBits fileIndex' ∨
      layout.filePlace groupIndexBits fileIndex' + imsicFileSpan ≤
        layout.filePlace groupIndexBits fileIndex := by
  have hspan : imsicFileSpan ≤ 2 ^ layout.hartIndexShift :=
    Nat.pow_le_pow_right (n := 2) (by decide) hfits.page
  have hparts : (layout.hartIndex fileIndex, layout.groupIndex groupIndexBits fileIndex) ≠
      (layout.hartIndex fileIndex', layout.groupIndex groupIndexBits fileIndex') := fun heq =>
    hne (layout.index_inj hlt hlt' (Prod.mk.inj heq).1 (Prod.mk.inj heq).2)
  unfold ImsicAddressLayout.filePlace
  by_cases hbits : groupIndexBits = 0
  · subst hbits
    -- without groups the group shift is not checked, and the group index is 0
    have hzero : ∀ n, layout.groupIndex 0 n = 0 := fun n => by
      rw [ImsicAddressLayout.groupIndex, Nat.pow_zero, Nat.mod_one]
    have hplace : ∀ n, place layout.hartIndexShift layout.groupIndexShift (layout.hartIndex n)
        (layout.groupIndex 0 n) = place layout.hartIndexShift
          (layout.hartIndexShift + layout.hartIndexBits) (layout.hartIndex n) (layout.groupIndex 0 n) :=
      fun n => by rw [place, place, hzero, Nat.zero_mul, Nat.zero_mul]
    rw [hplace, hplace]
    have hapart := place_apart (layout.hartIndex_lt fileIndex) (layout.hartIndex_lt fileIndex')
      (Nat.le_refl (layout.hartIndexShift + layout.hartIndexBits)) hparts
    omega
  · have hapart := place_apart (layout.hartIndex_lt fileIndex) (layout.hartIndex_lt fileIndex')
      (hfits.groups hbits).1 hparts
    omega

end Fits

/-! ## Mapped files -/

/-- The part of a register set that discovery gives a file. -/
structure Mapped (layout : ImsicAddressLayout) (groupIndexBits : Nat)
    (registerRanges : List (DeviceRegisterRange xlen)) (machineFile : MachineInterruptFile)
    (part : DeviceRegisterRange xlen) : Prop where
  index_lt : machineFile.fileIndex < 2 ^ (layout.hartIndexBits + groupIndexBits)
  start : part.physicalRange.start = layout.filePlace groupIndexBits machineFile.fileIndex
  stop : part.physicalRange.stop = part.physicalRange.start + imsicFileSpan
  inside : ∃ registerRange ∈ registerRanges, registerRange.contains part.physicalRange = true

/-- Every file given to a hart is one that is wired to it. -/
def Serves (layout : ImsicAddressLayout) (groupIndexBits : Nat)
    (registerRanges : List (DeviceRegisterRange xlen)) (machineFiles : List MachineInterruptFile)
    (hartFiles : HartFiles xlen) : Prop :=
  ∀ (hartId : Fin numHartMax) (part : DeviceRegisterRange xlen), hartFiles[hartId] = some part →
    ∃ machineFile ∈ machineFiles, machineFile.hartId = hartId ∧
      Mapped layout groupIndexBits registerRanges machineFile part

section Loop

variable {layout : ImsicAddressLayout} {groupIndexBits : Nat}
  {registerRanges : List (DeviceRegisterRange xlen)}

theorem Serves.set {done : List MachineInterruptFile} {hartFiles : HartFiles xlen}
    (hserves : Serves layout groupIndexBits registerRanges done hartFiles)
    {machineFile : MachineInterruptFile} (hlt : machineFile.hartId < numHartMax)
    {part : DeviceRegisterRange xlen}
    (hmapped : Mapped layout groupIndexBits registerRanges machineFile part) :
    Serves layout groupIndexBits registerRanges (done ++ [machineFile])
      (hartFiles.set machineFile.hartId (some part) hlt) := by
  intro hartId other hget
  rw [Fin.getElem_fin, Vector.getElem_set] at hget
  split at hget
  · rename_i heq
    cases hget
    exact ⟨machineFile, List.mem_append_right _ (List.mem_singleton_self _), heq, hmapped⟩
  · obtain ⟨file, hmem, hhart, hother⟩ := hserves hartId other hget
    exact ⟨file, List.mem_append_left _ hmem, hhart, hother⟩

theorem fromStartLen_ok {start len : Nat} {range : PhysAddrRange xlen}
    (h : PhysAddrRange.fromStartLen xlen start len = .ok range) :
    range.start = start ∧ range.stop = start + len := by
  unfold PhysAddrRange.fromStartLen at h
  split at h
  · cases h
  · split at h
    · unfold PhysAddrRange.new at h
      split at h
      · cases h
        exact ⟨rfl, rfl⟩
      · cases h
    · cases h

/-- The part that is cut from the register set is the file. -/
theorem mapped_of_find (hfits : Fits xlen layout groupIndexBits) {machineFile : MachineInterruptFile}
    (hlt : machineFile.fileIndex < 2 ^ (layout.hartIndexBits + groupIndexBits))
    {address : Nat} {file : PhysAddrRange xlen} {registerRange : DeviceRegisterRange xlen}
    (haddress : layout.machineFileAddress xlen (layout.hartIndex machineFile.fileIndex)
      (layout.groupIndex groupIndexBits machineFile.fileIndex) = some address)
    (hfile : PhysAddrRange.fromStartLen xlen address imsicFileSpan = .ok file)
    (hfind : registerRanges.find? (·.contains file) = some registerRange) :
    subUnsigned file.start registerRange.start = .ok (file.start - registerRange.start) ∧
    ∀ part, registerRange.subrange (file.start - registerRange.start) imsicFileSpan = .ok part →
      Mapped layout groupIndexBits registerRanges machineFile part := by
  obtain ⟨hplace, -⟩ := (hfits.machineFileAddress_eq_some_iff (layout.hartIndex_lt _)
    (layout.groupIndex_lt _ _)).mp haddress
  obtain ⟨hstart, hstop⟩ := fromStartLen_ok hfile
  have hcontains : registerRange.contains file = true := List.find?_some (p := (DeviceRegisterRange.contains · file)) hfind
  obtain ⟨hle, hstople⟩ := (PhysAddrRange.contains_iff _ _).mp hcontains
  refine ⟨subUnsigned_eq hle, fun part hpart => ?_⟩
  obtain ⟨-, hpartStart, hpartStop, hpartLe⟩ := DeviceRegisterRange.subrange_eq_ok_iff.mp hpart
  rw [DeviceRegisterRange.start, Nat.add_sub_cancel' hle] at hpartStart hpartStop
  refine ⟨hlt, ?_, by rw [hpartStop, hpartStart], registerRange, List.mem_of_find?_eq_some hfind, ?_⟩
  · rw [hpartStart, hstart, hplace]
    rfl
  · rw [DeviceRegisterRange.contains, PhysAddrRange.contains_iff, hpartStart]
    exact ⟨hle, hpartLe⟩

/-- One file after the other gets its part of a register set. -/
theorem accepts_mapHartFilesLoop (hfits : Fits xlen layout groupIndexBits)
    (machineFiles done : List MachineInterruptFile) {hartFiles : HartFiles xlen}
    (hserves : Serves layout groupIndexBits registerRanges done hartFiles) :
    Accepts (mapHartFilesLoop layout registerRanges (2 ^ (layout.hartIndexBits + groupIndexBits))
      (2 ^ layout.hartIndexBits - 1) (2 ^ groupIndexBits - 1) machineFiles hartFiles) fun hartFiles' =>
        Serves layout groupIndexBits registerRanges (done ++ machineFiles) hartFiles' ∧
        ∀ machineFile ∈ machineFiles,
          ∃ part, Mapped layout groupIndexBits registerRanges machineFile part := by
  induction machineFiles generalizing done hartFiles with
  | nil =>
    rw [mapHartFilesLoop, accepts_pure, List.append_nil]
    exact ⟨hserves, by simp⟩
  | cons machineFile rest ih =>
    rw [mapHartFilesLoop]
    split
    · rename_i hlt
      rw [accepts_bind, accepts_liftPanic]
      refine ⟨_, hfits.fileIndices_eq _, ?_⟩
      simp only [accepts_bind, accepts_liftResult, okOr_eq_ok_iff, accepts_liftPanic]
      intro address haddress file hfile registerRange hfind
      obtain ⟨hoffset, hmapped⟩ := mapped_of_find hfits hlt.2 haddress hfile hfind
      refine ⟨_, hoffset, fun part hpart => ?_⟩
      refine (ih (done ++ [machineFile]) (hserves.set hlt.1 (hmapped part hpart))).mono ?_
      rintro hartFiles' ⟨hall, hrest⟩
      rw [List.append_assoc, List.singleton_append] at hall
      exact ⟨hall, List.forall_mem_cons.mpr ⟨⟨part, hmapped part hpart⟩, hrest⟩⟩
    · exact accepts_throw

/-- `map_hart_files` never panics, and what it accepts gives every enabled hart a file. -/
theorem accepts_mapHartFiles (hfits : Fits xlen layout groupIndexBits)
    (machineFiles : List MachineInterruptFile) (enabledHarts : HartEnableList) :
    Accepts (mapHartFiles layout registerRanges machineFiles enabledHarts groupIndexBits)
      fun hartFiles =>
        Serves layout groupIndexBits registerRanges machineFiles hartFiles ∧
        (∀ machineFile ∈ machineFiles,
          ∃ part, Mapped layout groupIndexBits registerRanges machineFile part) ∧
        ∀ hartId : Fin numHartMax, enabledHarts[hartId] = true → ∃ part, hartFiles[hartId] = some part := by
  have hhart := hfits.hart_le
  have hgroup := hfits.group_le
  have hcount : 1 * 2 ^ (layout.hartIndexBits + groupIndexBits) < 2 ^ 64 := by
    rw [Nat.one_mul]
    exact Nat.pow_lt_pow_right (by decide) (by omega)
  have hnone : Serves layout groupIndexBits registerRanges [] (Vector.replicate numHartMax none) := by
    intro hartId part hget
    simp at hget
  simp only [mapHartFiles, accepts_bind, accepts_liftPanic]
  refine ⟨_, addUnsigned_eq (by omega), _, shlUnsigned_eq (by omega) hcount, _,
    lowBitMask_eq (by omega), _, lowBitMask_eq (by omega), ?_⟩
  rw [Nat.one_mul]
  refine (accepts_mapHartFilesLoop hfits machineFiles [] hnone).mono ?_
  rintro hartFiles ⟨hserves, hmapped⟩
  split
  · exact accepts_throw
  · rename_i henabled
    rw [accepts_pure]
    refine ⟨hserves, hmapped, fun hartId hon => ?_⟩
    rw [not_exists] at henabled
    exact Option.ne_none_iff_exists'.mp fun hmissing => henabled hartId ⟨hon, hmissing⟩

end Loop

/-- The layout of the interrupt files is sound for every description that
`validate_topology` and `map_hart_files` accept, and no operation overflows. -/
theorem imsic_layout_sound
    {guestIndexBits hartIndexBits groupIndexBits groupIndexShift : Nat}
    (hvalid : validateTopology xlen guestIndexBits hartIndexBits groupIndexBits groupIndexShift
      filePageShift = .ok ⟨⟩)
    (machineBase : Nat) (registerRanges : List (DeviceRegisterRange xlen))
    (machineFiles : List MachineInterruptFile) (enabledHarts : HartEnableList) :
    let layout : ImsicAddressLayout :=
      ⟨machineBase, hartIndexBits, groupIndexShift, filePageShift + guestIndexBits⟩
    let address (file : MachineInterruptFile) : Option Nat :=
      layout.machineFileAddress xlen (layout.hartIndex file.fileIndex)
        (layout.groupIndex groupIndexBits file.fileIndex)
    let mapped := mapHartFiles layout registerRanges machineFiles enabledHarts groupIndexBits
    (∃ result : Result (HartFiles xlen), mapped = Except.ok result) ∧
    ∀ hartFiles, mapped = Except.ok (.ok hartFiles) →
      (∀ file ∈ machineFiles, ∃ start, address file = some start ∧
        start = machineBase + layout.groupIndex groupIndexBits file.fileIndex * 2 ^ groupIndexShift +
          layout.hartIndex file.fileIndex * 2 ^ (filePageShift + guestIndexBits) ∧
        start + imsicFileSpan < xlen.words ∧
        ∃ registerRange ∈ registerRanges, registerRange.physicalRange.start ≤ start ∧
          start + imsicFileSpan ≤ registerRange.physicalRange.stop) ∧
      (∀ file ∈ machineFiles, ∀ file' ∈ machineFiles, file.fileIndex ≠ file'.fileIndex →
        ∀ start start', address file = some start → address file' = some start' →
          start + imsicFileSpan ≤ start' ∨ start' + imsicFileSpan ≤ start) ∧
      (∀ (hartId : Fin numHartMax) (part : DeviceRegisterRange xlen), hartFiles[hartId] = some part →
        ∃ file ∈ machineFiles, file.hartId = hartId ∧ address file = some part.physicalRange.start ∧
          part.physicalRange.stop = part.physicalRange.start + imsicFileSpan) ∧
      ∀ hartId : Fin numHartMax, enabledHarts[hartId] = true →
        ∃ part, hartFiles[hartId] = some part := by
  intro layout address mapped
  have hfits : Fits xlen layout groupIndexBits := validateTopology_ok hvalid machineBase
  have haccepts : Accepts mapped _ := accepts_mapHartFiles hfits machineFiles enabledHarts
  have haddress : ∀ file start, address file = some start ↔
      start = layout.filePlace groupIndexBits file.fileIndex ∧ start < xlen.words := fun file start =>
    hfits.machineFileAddress_eq_some_iff (layout.hartIndex_lt _) (layout.groupIndex_lt _ _)
  have hwhere : ∀ file (part : DeviceRegisterRange xlen),
      Mapped layout groupIndexBits registerRanges file part →
        address file = some part.physicalRange.start := by
    intro file part hmapped
    have hlt := part.physicalRange.start_lt_stop.trans part.physicalRange.stop_lt_words
    exact (haddress file _).mpr ⟨hmapped.start, hlt⟩
  refine ⟨?_, fun hartFiles hrun => ?_⟩
  · obtain ⟨result, hresult, -⟩ := haccepts
    exact ⟨result, hresult⟩
  · obtain ⟨hserves, hmapped, henabled⟩ := haccepts.of_ok hrun
    refine ⟨fun file hfile => ?_, fun file hfile file' hfile' hne start start' hstart hstart' => ?_,
      fun hartId part hget => ?_, henabled⟩
    · obtain ⟨part, hpart⟩ := hmapped file hfile
      obtain ⟨registerRange, hmem, hcontains⟩ := hpart.inside
      obtain ⟨hle, hle'⟩ := (PhysAddrRange.contains_iff _ _).mp hcontains
      have hstop := part.physicalRange.stop_lt_words
      rw [hpart.stop] at hle' hstop
      refine ⟨_, hwhere file part hpart, ?_, hstop, registerRange, hmem, hle, hle'⟩
      rw [hpart.start, ImsicAddressLayout.filePlace, place, ← Nat.add_assoc]
    · obtain ⟨part, hpart⟩ := hmapped file hfile
      obtain ⟨part', hpart'⟩ := hmapped file' hfile'
      rw [((haddress file start).mp hstart).1, ((haddress file' start').mp hstart').1]
      exact hfits.filePlace_apart hpart.index_lt hpart'.index_lt hne
    · obtain ⟨file, hfile, hhart, hpart⟩ := hserves hartId part hget
      exact ⟨file, hfile, hhart, hwhere file part hpart, hpart.stop⟩

/-- Two groups of two harts with one guest file each, in two register sets. -/
def groupedRegisters : List (DeviceRegisterRange .rv64) :=
  [⟨⟨0x24000000, 0x24004000, by decide, by decide⟩⟩, ⟨⟨0x25000000, 0x25004000, by decide, by decide⟩⟩]

def groupedFiles : List MachineInterruptFile := [⟨0, 0⟩, ⟨1, 1⟩, ⟨2, 2⟩]

def groupedHarts : HartEnableList := #v[true, true, true, false, false, false, false, false]

def groupedHartFiles : HartFiles .rv64 :=
  #v[some ⟨⟨0x24000000, 0x24000000 + imsicFileSpan, by decide, by decide⟩⟩,
    some ⟨⟨0x24002000, 0x24002000 + imsicFileSpan, by decide, by decide⟩⟩,
    some ⟨⟨0x25000000, 0x25000000 + imsicFileSpan, by decide, by decide⟩⟩,
    none, none, none, none, none]

theorem imsic_layout_sound_grouped :
    (∀ file ∈ groupedFiles, ∀ file' ∈ groupedFiles, file.fileIndex ≠ file'.fileIndex →
      ∀ start start',
        ImsicAddressLayout.machineFileAddress .rv64 ⟨0x24000000, 1, 24, 13⟩ (file.fileIndex % 2)
          (file.fileIndex / 2 % 2) = some start →
        ImsicAddressLayout.machineFileAddress .rv64 ⟨0x24000000, 1, 24, 13⟩ (file'.fileIndex % 2)
          (file'.fileIndex / 2 % 2) = some start' →
        start + imsicFileSpan ≤ start' ∨ start' + imsicFileSpan ≤ start) ∧
    ImsicAddressLayout.machineFileAddress .rv64 ⟨0x24000000, 1, 24, 13⟩ 0 1 = some 0x25000000 := by
  have hvalid : validateTopology .rv64 1 1 1 24 filePageShift = .ok ⟨⟩ := by decide +kernel
  have hmapped : (mapHartFiles ⟨0x24000000, 1, 24, 13⟩ groupedRegisters groupedFiles groupedHarts 1).run =
      Except.ok (.ok groupedHartFiles) := by
    decide +kernel
  obtain ⟨-, hsound⟩ := imsic_layout_sound hvalid 0x24000000 groupedRegisters groupedFiles groupedHarts
  exact ⟨(hsound groupedHartFiles hmapped).2.1, by decide +kernel⟩

/-! ## Discovery -/

section Discover

variable {registerRanges : List (DeviceRegisterRange xlen)} {controllers : List CpuInterruptController}

/-- The wired files, in the order of their indices. -/
theorem machineInterruptFilesLoop_sorted {cells : List Nat} {fileIndex : Nat}
    {files : List MachineInterruptFile}
    (h : machineInterruptFilesLoop controllers cells fileIndex = .ok files) :
    (∀ file ∈ files, fileIndex ≤ file.fileIndex) ∧
      files.Pairwise fun file file' => file.fileIndex < file'.fileIndex := by
  induction cells, fileIndex using machineInterruptFilesLoop.induct generalizing files with
  | case1 fileIndex =>
    cases h
    exact ⟨by simp, .nil⟩
  | case2 fileIndex cell => cases h
  | case3 phandle interrupt cells fileIndex hother ih =>
    rw [machineInterruptFilesLoop, if_pos hother] at h
    obtain ⟨hle, hsorted⟩ := ih h
    exact ⟨fun file hfile => (Nat.le_succ _).trans (hle file hfile), hsorted⟩
  | case4 phandle interrupt cells fileIndex hexternal ih =>
    rw [machineInterruptFilesLoop, if_neg hexternal] at h
    cases hfind : controllers.find? (·.phandle == phandle) with
    | none =>
      rw [hfind] at h
      cases h
    | some controller =>
      rw [hfind] at h
      simp only [okOr, bind, Except.bind] at h
      split at h
      · cases hrest : machineInterruptFilesLoop controllers cells (fileIndex + 1) with
        | error e =>
          rw [hrest] at h
          cases h
        | ok rest =>
          rw [hrest] at h
          cases h
          obtain ⟨hle, hsorted⟩ := ih hrest
          exact ⟨List.forall_mem_cons.mpr ⟨le_rfl, fun file hfile => (Nat.le_succ _).trans (hle file hfile)⟩,
            List.pairwise_cons.mpr ⟨hle, hsorted⟩⟩
      · cases h

theorem machineInterruptFiles_inj {node : ImsicNode} {files : List MachineInterruptFile}
    (h : machineInterruptFiles node controllers = .ok files) {file file' : MachineInterruptFile}
    (hfile : file ∈ files) (hfile' : file' ∈ files) (heq : file.fileIndex = file'.fileIndex) :
    file = file' := by
  obtain ⟨cells, -, hloop⟩ : ∃ cells, node.interruptsExtended = some cells ∧
      machineInterruptFilesLoop controllers cells 0 = .ok files := by
    unfold machineInterruptFiles at h
    cases hcells : node.interruptsExtended with
    | none =>
      rw [hcells] at h
      cases h
    | some cells =>
      rw [hcells] at h
      exact ⟨cells, rfl, h⟩
  obtain ⟨-, hsorted⟩ := machineInterruptFilesLoop_sorted hloop
  have hnodup : (files.map MachineInterruptFile.fileIndex).Nodup :=
    List.pairwise_map.mpr (hsorted.imp fun hlt => hlt.ne)
  exact List.inj_on_of_nodup_map hnodup hfile hfile' heq

/-- What discovery promises of the files: each is a 4 KiB page of a register set, and no two
harts share a byte of one. -/
structure FilesApart (registerRanges : List (DeviceRegisterRange xlen)) (hartFiles : HartFiles xlen) :
    Prop where
  page : ∀ (hartId : Fin numHartMax) (part : DeviceRegisterRange xlen), hartFiles[hartId] = some part →
    part.physicalRange.start % imsicFileSpan = 0 ∧
      part.physicalRange.stop = part.physicalRange.start + imsicFileSpan ∧
      ∃ registerRange ∈ registerRanges, registerRange.contains part.physicalRange = true
  apart : ∀ (hartId hartId' : Fin numHartMax) (part part' : DeviceRegisterRange xlen),
    hartId ≠ hartId' → hartFiles[hartId] = some part → hartFiles[hartId'] = some part' →
      part.physicalRange.stop ≤ part'.physicalRange.start ∨
        part'.physicalRange.stop ≤ part.physicalRange.start

theorem filesApart_of_serves {layout : ImsicAddressLayout} {groupIndexBits : Nat}
    (hfits : Fits xlen layout groupIndexBits) (hbase : imsicFileSpan ∣ layout.machineBase)
    {node : ImsicNode} {machineFiles : List MachineInterruptFile}
    (hfiles : machineInterruptFiles node controllers = .ok machineFiles) {hartFiles : HartFiles xlen}
    (hserves : Serves layout groupIndexBits registerRanges machineFiles hartFiles) :
    FilesApart registerRanges hartFiles := by
  refine ⟨fun hartId part hget => ?_, fun hartId hartId' part part' hne hget hget' => ?_⟩
  · obtain ⟨file, -, -, hmapped⟩ := hserves hartId part hget
    refine ⟨?_, hmapped.stop, hmapped.inside⟩
    have hunit : imsicFileSpan ∣ 2 ^ layout.hartIndexShift := Nat.pow_dvd_pow 2 hfits.page
    have hgroup : imsicFileSpan ∣
        layout.groupIndex groupIndexBits file.fileIndex * 2 ^ layout.groupIndexShift := by
      by_cases hbits : groupIndexBits = 0
      · rw [ImsicAddressLayout.groupIndex, hbits, Nat.pow_zero, Nat.mod_one, Nat.zero_mul]
        exact Nat.dvd_zero _
      · have hshift := (hfits.groups hbits).1
        have hpage := hfits.page
        exact (Nat.pow_dvd_pow 2 (by omega : filePageShift ≤ layout.groupIndexShift)).mul_left _
    rw [hmapped.start]
    exact Nat.mod_eq_zero_of_dvd (hbase.add (hgroup.add (hunit.mul_left _)))
  · obtain ⟨file, hfile, hhart, hmapped⟩ := hserves hartId part hget
    obtain ⟨file', hfile', hhart', hmapped'⟩ := hserves hartId' part' hget'
    have hindex : file.fileIndex ≠ file'.fileIndex := by
      intro heq
      have hsame := machineInterruptFiles_inj hfiles hfile hfile' heq
      exact hne (Fin.ext (by rw [← hhart, ← hhart', hsame]))
    rw [hmapped.stop, hmapped'.stop, hmapped.start, hmapped'.start]
    exact hfits.filePlace_apart hmapped.index_lt hmapped'.index_lt hindex

/-- Discovery never panics, and what it finds gives every enabled hart a page of its own. -/
theorem accepts_discover (node : ImsicNode) (registerRanges : List (DeviceRegisterRange xlen))
    (controllers : List CpuInterruptController) (enabledHarts : HartEnableList) :
    Accepts (discover node registerRanges controllers enabledHarts) fun found =>
      ∀ info, found = some info → FilesApart registerRanges info.hartFiles ∧
        ∀ hartId : Fin numHartMax, enabledHarts[hartId] = true →
          ∃ part, info.hartFiles[hartId] = some part := by
  simp only [discover, accepts_bind, accepts_liftResult, okOr_eq_ok_iff]
  intro first hfirst
  split
  · exact accepts_throw
  · rename_i haligned
    simp only [accepts_bind, accepts_liftResult]
    intro numIds _ machineFiles hfiles
    split
    · simp
    · split
      · exact accepts_throw
      · simp only [accepts_bind, accepts_liftResult]
        intro _ hvalid
        split
        · exact accepts_throw
        · have hfits := validateTopology_ok hvalid first.start
          have hpage : filePageShift = 12 := rfl
          have hshift := hfits.shift_lt
          have hbits : xlen.bits ≤ 64 := by cases xlen <;> decide
          simp only [accepts_bind, accepts_liftPanic]
          refine ⟨_, addUnsigned_eq (by dsimp only at hshift; omega), ?_⟩
          refine (accepts_mapHartFiles hfits machineFiles enabledHarts).mono ?_
          rintro hartFiles ⟨hserves, -, henabled⟩
          rw [accepts_pure]
          rintro info ⟨rfl⟩
          refine ⟨filesApart_of_serves hfits ?_ hfiles hserves, henabled⟩
          have hmem : first ∈ registerRanges := List.mem_of_head? hfirst
          have hbounds : first.hasAlignedBounds imsicFileSpan = true := by
            by_contra hfalse
            exact haligned (List.any_eq_true.mpr ⟨first, hmem, by simpa using hfalse⟩)
          exact (DeviceRegisterRange.hasAlignedBounds_iff.mp hbounds).2.1

end Discover

/-! ## Binding -/

/-- `ImsicIpi`. -/
structure ImsicIpi (xlen : Xlen) where
  ipiIid : Nat
  hartFiles : List (Option (MmioRegion xlen))

/-- The loop of `bind` over the harts: the window of each hart that has a file. -/
def acquireHartFiles : List (Option (DeviceRegisterRange xlen)) →
    Binding xlen (List (Option (MmioRegion xlen)))
  | [] => return []
  | none :: rest => do return none :: (← acquireHartFiles rest)
  | some registerRange :: rest => do
    let hartFile ← acquire registerRange
    return some hartFile :: (← acquireHartFiles rest)

/-- `bind`, where `aplic` binds the configured APLIC if there is one. -/
def bind (imsic : ImsicInfo xlen) (aplic : Option (Binding xlen PUnit)) :
    Binding xlen (ImsicIpi xlen) := do
  let hartFiles ← acquireHartFiles imsic.hartFiles.toList
  aplic.getD (pure ⟨⟩)
  return ⟨imsic.ipiIid, hartFiles⟩

theorem acquireHartFiles_ok {hartFiles : List (Option (DeviceRegisterRange xlen))}
    {windows : List (Option (MmioRegion xlen))} {memory memory' : MemoryRegistry xlen}
    (h : acquireHartFiles hartFiles memory = (.ok windows, memory')) :
    windows.map (Option.map MmioRegion.range) =
      hartFiles.map (Option.map DeviceRegisterRange.physicalRange) := by
  induction hartFiles generalizing windows memory memory' with
  | nil =>
    obtain ⟨rfl, -⟩ := binding_pure_eq_ok_iff.mp h
    rfl
  | cons hartFile rest ih =>
    cases hartFile with
    | none =>
      simp only [acquireHartFiles, binding_bind_eq_ok_iff, binding_pure_eq_ok_iff] at h
      obtain ⟨windows, _, hrest, rfl, -⟩ := h
      rw [List.map_cons, List.map_cons, ih hrest]
      rfl
    | some registerRange =>
      simp only [acquireHartFiles, binding_bind_eq_ok_iff, binding_pure_eq_ok_iff] at h
      obtain ⟨window, _, hacquire, windows, _, hrest, rfl, -⟩ := h
      rw [List.map_cons, List.map_cons, ih hrest, Option.map_some, Option.map_some,
        range_of_acquire hacquire]

/-- The windows through which interrupts are sent are the files found by discovery. -/
theorem hartFiles_of_bind {imsic : ImsicInfo xlen} {aplic : Option (Binding xlen PUnit)}
    {ipi : ImsicIpi xlen} {memory memory' : MemoryRegistry xlen}
    (h : bind imsic aplic memory = (.ok ipi, memory')) :
    ipi.hartFiles.map (Option.map MmioRegion.range) =
      imsic.hartFiles.toList.map (Option.map DeviceRegisterRange.physicalRange) := by
  simp only [bind, binding_bind_eq_ok_iff, binding_pure_eq_ok_iff] at h
  obtain ⟨windows, _, hacquire, _, _, -, rfl, -⟩ := h
  exact acquireHartFiles_ok hacquire

end RustSbi.Platform
