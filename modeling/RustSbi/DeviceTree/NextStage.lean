import RustSbi.DeviceTree.Reserving

/-!
`prepare_next_stage` on a blob that validates. The blob is a header and a structure
block of one root; the result is a header and the block of an edited root, or an
error for one of the reasons that the planner and the writer give.
-/

namespace RustSbi.DeviceTree

open Bytes

/-! ## Blobs that validate -/

/-- The parts of a blob that validates. -/
structure Accepted (xlen : Xlen) (source : ByteString) (layout : Layout) (root : Root) : Prop where
  source : layout.source = source
  laidOut : ∃ reservationsOffset stringsOffset lastCompatible,
    LaidOut layout reservationsOffset stringsOffset lastCompatible
  block : root.block = layout.structureBlock
  valid : root.Valid xlen layout.strings

theorem LaidOut.room {xlen : Xlen} {layout : Layout}
    {reservationsOffset stringsOffset lastCompatible : Nat}
    (h : LaidOut layout reservationsOffset stringsOffset lastCompatible) :
    layout.structureBlock.length < xlen.words := by
  have hwords := xlen.four_gigabytes_le_words
  have htotal := h.totalSizeWord.1
  have hsecond := h.structure_le
  have hthird := h.strings_le
  omega

theorem validate_iff_accepted {xlen : Xlen} {source : ByteString} :
    validate xlen source = .ok () ↔ ∃ layout root, Accepted xlen source layout root := by
  rw [validate, bind_eq_ok_iff]
  constructor
  · rintro ⟨layout, hparse, hstructure⟩
    obtain ⟨hsource, reservationsOffset, stringsOffset, lastCompatible, hlaid⟩ :=
      parse_eq_ok_iff.mp hparse
    obtain ⟨root, hblock, hvalid⟩ := (validateStructure_iff hlaid.room).mp hstructure
    exact ⟨layout, root, hsource, ⟨_, _, _, hlaid⟩, hblock, hvalid⟩
  · rintro ⟨layout, root, hsource, ⟨reservationsOffset, stringsOffset, lastCompatible, hlaid⟩,
      hblock, hvalid⟩
    exact ⟨layout, parse_eq_ok_iff.mpr ⟨hsource, _, _, _, hlaid⟩,
      (validateStructure_iff hlaid.room).mpr ⟨root, hblock, hvalid⟩⟩

namespace Accepted

variable {xlen : Xlen} {source : ByteString} {layout : Layout} {root : Root}

theorem parse (h : Accepted xlen source layout root) : Layout.parse xlen source = .ok layout :=
  parse_eq_ok_iff.mpr ⟨h.source, h.laidOut⟩

theorem room (h : Accepted xlen source layout root) : root.block.length < xlen.words := by
  obtain ⟨_, _, _, hlaid⟩ := h.laidOut
  rw [h.block]
  exact hlaid.room

end Accepted

/-! ## Without a reservation -/

/-- The hidden paths that `prepare_next_stage` refuses. -/
def badPath (path : ByteString) : Bool :=
  path.head? != some 0x2f || path == ascii "/" || path.contains 0

theorem slash_not_mem {hidden : List ByteString} (h : hidden.any badPath = false) :
    ascii "/" ∉ hidden := by
  intro hmem
  have hbad := List.any_eq_false.mp h (ascii "/") hmem
  have hslash : badPath (ascii "/") = true := by decide +kernel
  exact hbad hslash

/-- A root has at most one reserved-memory node. -/
def Root.twice (root : Root) : Bool := 1 < (root.inner.reserved root.innerOffset).length

theorem prepareNextStage_eq (xlen : Xlen) (source : ByteString)
    (firmwareReservation : Option Reservation) (hidden : List ByteString) :
    prepareNextStage xlen source firmwareReservation hidden = (do
      reject (hidden.any badPath) .invalidArgs
      let layout ← Layout.parse xlen source
      let edits ← planEdits xlen layout.structureBlock layout.strings hidden
        (firmwareReservation.map Reservation.name)
      let structureBlock ← nopNodes layout.structureBlock edits.hiddenNodes
      match firmwareReservation with
      | some reservation =>
        addFirmwareReservation xlen layout edits structureBlock reservation reservation.name
      | none => replaceStructure xlen source layout structureBlock) := rfl

section Prepare

variable {xlen : Xlen} {source : ByteString} {layout : Layout} {root : Root}

/-- The planning part of `prepare_next_stage`. -/
theorem Accepted.plan_eq (h : Accepted xlen source layout root) {hidden : List ByteString}
    (hpaths : hidden.any badPath = false) (reservationName : Option ByteString) :
    planEdits xlen layout.structureBlock layout.strings hidden reservationName = (do
      reject root.twice .invalidArgs
      return root.plan hidden reservationName) := by
  rw [← h.block]
  exact Root.planEdits_eq h.valid h.room (slash_not_mem hpaths) reservationName

theorem Accepted.prepare_none (h : Accepted xlen source layout root) (hidden : List ByteString) :
    prepareNextStage xlen source none hidden = (do
      reject (hidden.any badPath) .invalidArgs
      reject root.twice .invalidArgs
      return replaced layout (root.hide hidden).block) := by
  obtain ⟨_, _, _, hlaid⟩ := h.laidOut
  have hlen : (root.hide hidden).block.length = layout.structureBlock.length := by
    rw [Root.length_block_hide h.valid, h.block]
  have hreplace : replaceStructure xlen source layout (root.hide hidden).block =
      .ok (replaced layout (root.hide hidden).block) := by
    rw [← h.source]
    exact hlaid.replaceStructure_eq hlen
  have hnops : nopNodes layout.structureBlock (root.plan hidden none).hiddenNodes =
      .ok (root.hide hidden).block := by
    rw [← h.block]
    exact Root.nopNodes_block h.valid hidden none
  rw [prepareNextStage_eq]
  cases hpaths : hidden.any badPath with
  | true => rfl
  | false =>
    simp only [reject_false, ok_bind, h.parse, Option.map_none, h.plan_eq hpaths none, bind_assoc,
      pure_bind, hnops, hreplace]
    rfl

/-- The blob with hidden nodes is accepted. -/
theorem Accepted.hidden (h : Accepted xlen source layout root) (hidden : List ByteString) :
    Accepted xlen (replaced layout (root.hide hidden).block)
      ⟨replaced layout (root.hide hidden).block, layout.totalSize, layout.reservations,
        layout.structureOffset, (root.hide hidden).block, layout.strings⟩ (root.hide hidden) := by
  obtain ⟨_, _, _, hlaid⟩ := h.laidOut
  have hlen : (root.hide hidden).block.length = layout.structureBlock.length := by
    rw [Root.length_block_hide h.valid, h.block]
  exact ⟨rfl, ⟨_, _, _, hlaid.replaced_laidOut hlen⟩, rfl, h.valid.hide hidden⟩

/-! ## With a reservation -/

/-- The cell counts for the children of the root. -/
def Root.cells (root : Root) : CellCounts := (root.inner.declared false .fresh).cells

/-- The recorded reserved-memory node. -/
def Root.reservedMemory (root : Root) : Option ReservedMemory :=
  (root.inner.reserved root.innerOffset).head?

/-- The reserved-memory node, if there is one, can take the reservation. -/
def Root.Accepts (root : Root) (reservation : Reservation) : Prop :=
  ∀ reserved, root.reservedMemory = some reserved →
    reserved.acceptsFirmwareChild = true ∧ reserved.cells = root.cells ∧
      root.inner.reservationExists (some reservation.name) = false

/-- The block with its hidden nodes turned into `NOP`s and the reservation added. -/
def Root.reserve (root : Root) (hidden : List ByteString) (names : NewStrings)
    (reservation : Reservation) : Root :=
  match root.reservedMemory with
  | some _ =>
    { root with
      inner := root.inner.reserve hidden (ascii "/") (childContent names root.cells reservation) }
  | none =>
    { root with
      inner := root.inner.hide hidden (ascii "/") ++ parentContent names root.cells reservation }

/-- The offset and the bytes that `add_firmware_reservation` inserts. -/
theorem Root.insert_eq {strings : ByteString} {root : Root} (h : root.Valid xlen strings)
    (hidden : List ByteString) (names : NewStrings) (reservation : Reservation) :
    ∃ before after, (root.hide hidden).block = before ++ after ∧
      match root.reservedMemory with
      | some reserved => before.length = reserved.stop ∧
        (root.reserve hidden names reservation).block =
          before ++ (childContent names root.cells reservation).bytes ++ after
      | none => before.length = root.innerOffset + root.inner.bytes.length ∧
        (root.reserve hidden names reservation).block =
          before ++ (parentContent names root.cells reservation).bytes ++ after := by
  have hblock := (root.hide hidden).block_eq
  cases hreserved : root.reservedMemory with
  | none =>
    refine ⟨nops root.lead ++ root.raw ++ (root.inner.hide hidden (ascii "/")).bytes, _, hblock, ?_⟩
    simp only [Root.reserve, hreserved]
    refine ⟨?_, ?_⟩
    · rw [List.length_append, root.length_before, h.spelled.length_hide]
    · rw [Root.block_eq, Content.bytes_append]
      simp only [List.append_assoc]
      rfl
  | some reserved =>
    obtain ⟨before, after, hhide, hlen, hreserve⟩ := Content.bytes_reserve h.spelled hidden (ascii "/")
      (childContent names root.cells reservation) hreserved
    refine ⟨nops root.lead ++ root.raw ++ before, after ++ (beBytes 4 endNodeWord ++ (nops root.lag ++
      (beBytes 4 endWord ++ root.trailing))), ?_, ?_⟩
    · rw [hblock]
      simp only [Root.hide, hhide, List.append_assoc]
    · simp only [Root.reserve, hreserved]
      refine ⟨?_, ?_⟩
      · rw [List.length_append, root.length_before]
        exact hlen
      · rw [Root.block_eq, hreserve]
        simp only [List.append_assoc]

/-- The block with the reservation validates. -/
theorem Root.Valid.reserve {strings : ByteString} {root : Root} (h : root.Valid xlen strings)
    {reservation : Reservation} (haccepts : root.Accepts reservation) (hcells : root.cells.Narrow)
    (hstrings : strings.length + 38 < 2 ^ 32) (hidden : List ByteString) :
    (root.reserve hidden (newStrings strings) reservation).Valid xlen
      (newStrings strings).strings := by
  obtain ⟨known, hcheck⟩ := h.checked
  have hroot : known.cells = root.cells := Content.cells_of_check hcheck false
  have hdepth : 1 + 1 < maxFdtDepth := by decide
  have hbegins : Spells (newStrings strings).strings root.raw (.beginNode []) := h.begins.append _
  have hspelled : root.inner.Spelled (newStrings strings).strings := h.spelled.extend _
  cases hreserved : root.reservedMemory with
  | some reserved =>
    obtain ⟨-, hsame, -⟩ := haccepts reserved hreserved
    have hchild : ∀ depth < maxFdtDepth, ∀ parentCells, ∀ known : ValidationNode,
        known.cells = root.cells →
        (childContent (newStrings strings) root.cells reservation).check xlen depth parentCells known =
          .ok { known with hasChild := true } :=
      fun depth hdepth parentCells known => childContent_check hcells reservation hdepth parentCells
    obtain ⟨known', hcheck'⟩ := Content.check_reserve hdepth hchild (.refl .new) hcheck hreserved
      hsame hroot hidden (ascii "/")
    simp only [Root.reserve, hreserved]
    exact ⟨hbegins, hspelled.reserve (childContent_spelled hstrings hcells reservation) hidden _,
      ⟨known', hcheck'⟩, h.trailing⟩
  | none =>
    obtain ⟨known', hcheck', -⟩ := Content.check_hide (.refl .new) hcheck hidden (ascii "/")
    simp only [Root.reserve, hreserved]
    refine ⟨hbegins, Content.spelled_append.mpr ⟨hspelled.hide hidden _,
      parentContent_spelled hstrings hcells reservation⟩, ⟨{ known' with hasChild := true }, ?_⟩,
      h.trailing⟩
    rw [Content.check_append, hcheck', ok_bind]
    exact parentContent_check hcells reservation hdepth _ known'

/-- The last steps of `add_firmware_reservation`: the insertion and the new header. -/
theorem LaidOut.insert_iff {reservationsOffset stringsOffset lastCompatible : Nat}
    (h : LaidOut layout reservationsOffset stringsOffset lastCompatible)
    (before insertion after strings : ByteString) {output : ByteString} :
    (do
      let _ ← addUsize xlen (before ++ after).length insertion.length
      let front ← indexTo (before ++ after) before.length
      let back ← indexFrom (before ++ after) before.length
      rebuild xlen layout (front ++ insertion ++ back) strings) = .ok output ↔
      roundUp (rebuiltEnd layout (before ++ insertion ++ after) strings) 4 < 2 ^ 32 ∧
        output = rebuilt layout (before ++ insertion ++ after) strings := by
  have hwords := xlen.four_gigabytes_le_words
  have hround := @le_roundUp (rebuiltEnd layout (before ++ insertion ++ after) strings) 4 (by decide)
  have hend : rebuiltEnd layout (before ++ insertion ++ after) strings =
      headerSize + layout.reservations.length + (before ++ insertion ++ after).length +
        strings.length := rfl
  have hfront : indexTo (before ++ after) before.length = .ok before :=
    indexTo_eq_ok_iff.mpr ⟨by simp, List.take_left⟩
  have hback : indexFrom (before ++ after) before.length = .ok after :=
    indexFrom_eq_ok_iff.mpr ⟨by simp, List.drop_left⟩
  simp only [hfront, hback, ok_bind, bind_eq_ok_iff, addUsize_eq_ok_iff, h.rebuild_eq_ok_iff]
  constructor
  · rintro ⟨_, -, hsize, houtput⟩
    exact ⟨hsize, houtput⟩
  · rintro ⟨hsize, houtput⟩
    refine ⟨_, ⟨rfl, ?_⟩, hsize, houtput⟩
    simp only [List.length_append] at hend ⊢
    omega

/-- The steps of `add_firmware_reservation` after its guard. -/
theorem Accepted.reserve_iff (h : Accepted xlen source layout root) (hidden : List ByteString)
    (reservation : Reservation) (output : ByteString) :
    (do
      validateCellWidths root.cells
      let names ← appendNames layout.strings
      let child ← firmwareChild names root.cells reservation reservation.name
      let (insertionOffset, insertion) ←
        match root.reservedMemory with
        | some reserved => pure (reserved.stop, child)
        | none => do
          let parent ← firmwareParent names root.cells child
          pure (root.innerOffset + root.inner.bytes.length, parent)
      let _ ← addUsize xlen (root.hide hidden).block.length insertion.length
      let before ← indexTo (root.hide hidden).block insertionOffset
      let after ← indexFrom (root.hide hidden).block insertionOffset
      rebuild xlen layout (before ++ insertion ++ after) names.strings) = .ok output ↔
      (root.cells.Narrow ∧ reservation.Fits root.cells ∧
        roundUp (rebuiltEnd layout
          (root.reserve hidden (newStrings layout.strings) reservation).block
          (newStrings layout.strings).strings) 4 < 2 ^ 32) ∧
      output = rebuilt layout (root.reserve hidden (newStrings layout.strings) reservation).block
        (newStrings layout.strings).strings := by
  obtain ⟨_, _, _, hlaid⟩ := h.laidOut
  obtain ⟨before, after, hblock, hinsert⟩ :=
    Root.insert_eq h.valid hidden (newStrings layout.strings) reservation
  have hstrings : ∀ block, roundUp (rebuiltEnd layout block (newStrings layout.strings).strings) 4 <
      2 ^ 32 → layout.strings.length + 38 < 2 ^ 32 := by
    intro block hsize
    have hround := @le_roundUp (rebuiltEnd layout block (newStrings layout.strings).strings) 4
      (by decide)
    have hend : rebuiltEnd layout block (newStrings layout.strings).strings =
        headerSize + layout.reservations.length + block.length +
          (newStrings layout.strings).strings.length := rfl
    have hnew : layout.strings.length + 45 = (newStrings layout.strings).strings.length := by
      simp only [newStrings, List.length_append]
      rfl
    omega
  by_cases hcells : root.cells.Narrow
  · have hwidths := validateCellWidths_eq_ok_iff.mpr hcells
    simp only [hwidths, ok_bind, bind_eq_ok_iff, appendNames_eq_ok_iff, and_assoc, exists_and_left,
      exists_eq_left, firmwareChild_eq_ok_iff hcells]
    cases hreserved : root.reservedMemory with
    | some reserved =>
      simp only [hreserved] at hinsert
      obtain ⟨hstop, hnew⟩ := hinsert
      simp only [pure_bind, hblock, ← hstop, hlaid.insert_iff, ← hnew]
      exact ⟨fun ⟨_, hfits, hsize, houtput⟩ => ⟨hcells, hfits, hsize, houtput⟩,
        fun ⟨_, hfits, hsize, houtput⟩ => ⟨hstrings _ hsize, hfits, hsize, houtput⟩⟩
    | none =>
      simp only [hreserved] at hinsert
      obtain ⟨hstop, hnew⟩ := hinsert
      simp only [firmwareParent_eq, pure_bind, ok_bind, hblock, ← hstop, hlaid.insert_iff, ← hnew]
      exact ⟨fun ⟨_, hfits, hsize, houtput⟩ => ⟨hcells, hfits, hsize, houtput⟩,
        fun ⟨_, hfits, hsize, houtput⟩ => ⟨hstrings _ hsize, hfits, hsize, houtput⟩⟩
  · have hwidths : validateCellWidths root.cells ≠ .ok () := fun hok =>
      hcells (validateCellWidths_eq_ok_iff.mp hok)
    simp only [hcells, false_and, iff_false, bind_eq_ok_iff, not_exists, not_and]
    intro u hok
    exact (hwidths hok).elim

/-- `add_firmware_reservation` with the plan of a block that validates. -/
theorem Accepted.addFirmwareReservation_iff (h : Accepted xlen source layout root)
    (hidden : List ByteString) (reservation : Reservation) {output : ByteString} :
    addFirmwareReservation xlen layout (root.plan hidden (some reservation.name))
        (root.hide hidden).block reservation reservation.name = .ok output ↔
      root.Accepts reservation ∧ (root.cells.Narrow ∧ reservation.Fits root.cells ∧
        roundUp (rebuiltEnd layout
          (root.reserve hidden (newStrings layout.strings) reservation).block
          (newStrings layout.strings).strings) 4 < 2 ^ 32) ∧
      output = rebuilt layout (root.reserve hidden (newStrings layout.strings) reservation).block
        (newStrings layout.strings).strings := by
  have hrest := h.reserve_iff hidden reservation output
  have hrootCells : (root.plan hidden (some reservation.name)).rootCells = root.cells := rfl
  cases hreserved : root.reservedMemory with
  | some reserved =>
    have hplan : (root.plan hidden (some reservation.name)).reservedMemory = some reserved := hreserved
    have hexists : (root.plan hidden (some reservation.name)).reservationExists =
        root.inner.reservationExists (some reservation.name) := rfl
    simp only [hreserved] at hrest
    by_cases haccepts : root.Accepts reservation
    · obtain ⟨haccept, hcells, hnew⟩ := haccepts reserved hreserved
      simp only [addFirmwareReservation, hplan, hrootCells, hexists, Option.any_some, haccept, hcells,
        hnew, Bool.not_true, bne_self_eq_false, Bool.or_self, reject_false, ok_bind, Option.map_some,
        Option.getD_some, haccepts, true_and]
      exact hrest
    · have hguard : (!reserved.acceptsFirmwareChild || reserved.cells != root.cells ||
          root.inner.reservationExists (some reservation.name)) = true := by
        by_contra hfalse
        simp only [Bool.not_eq_true, Bool.or_eq_false_iff, Bool.not_eq_eq_eq_not, Bool.not_false,
          bne_eq_false_iff_eq] at hfalse
        refine haccepts fun other hother => ?_
        rw [hreserved] at hother
        cases hother
        exact ⟨hfalse.1.1, hfalse.1.2, hfalse.2⟩
      simp only [addFirmwareReservation, hplan, hrootCells, hexists, Option.any_some, hguard, haccepts,
        false_and, iff_false]
      rintro ⟨⟩
  | none =>
    have hplan : (root.plan hidden (some reservation.name)).reservedMemory = none := hreserved
    have haccepts : root.Accepts reservation := by
      intro reserved hsome
      rw [hreserved] at hsome
      cases hsome
    simp only [hreserved] at hrest
    simp only [addFirmwareReservation, hplan, hrootCells, Option.any_none, reject_false, ok_bind,
      haccepts, true_and, Option.map_none, Option.getD_none]
    exact hrest

theorem Accepted.prepare_some_iff (h : Accepted xlen source layout root) (hidden : List ByteString)
    (reservation : Reservation) {output : ByteString} :
    prepareNextStage xlen source (some reservation) hidden = .ok output ↔
      (hidden.any badPath = false ∧ root.twice = false ∧ root.Accepts reservation ∧
        root.cells.Narrow ∧ reservation.Fits root.cells ∧
        roundUp (rebuiltEnd layout
          (root.reserve hidden (newStrings layout.strings) reservation).block
          (newStrings layout.strings).strings) 4 < 2 ^ 32) ∧
      output = rebuilt layout (root.reserve hidden (newStrings layout.strings) reservation).block
        (newStrings layout.strings).strings := by
  have hnops : nopNodes layout.structureBlock
      (root.plan hidden (some reservation.name)).hiddenNodes = .ok (root.hide hidden).block := by
    rw [← h.block]
    exact Root.nopNodes_block h.valid hidden _
  rw [prepareNextStage_eq]
  cases hpaths : hidden.any badPath with
  | true =>
    simp only [Bool.true_eq_false, false_and, iff_false]
    rintro ⟨⟩
  | false =>
    simp only [reject_false, ok_bind, h.parse, Option.map_some, h.plan_eq hpaths, bind_assoc,
      pure_bind, hnops, bind_eq_ok_iff, reject_eq_ok_iff, h.addFirmwareReservation_iff]
    constructor
    · rintro ⟨-, htwice, haccepts, ⟨hcells, hfits, hsize⟩, houtput⟩
      exact ⟨⟨trivial, htwice, haccepts, hcells, hfits, hsize⟩, houtput⟩
    · rintro ⟨⟨-, htwice, haccepts, hcells, hfits, hsize⟩, houtput⟩
      exact ⟨(), htwice, haccepts, ⟨hcells, hfits, hsize⟩, houtput⟩

/-- The blob with the reservation is accepted. -/
theorem Accepted.reserved (h : Accepted xlen source layout root) (hidden : List ByteString)
    {reservation : Reservation} (haccepts : root.Accepts reservation) (hcells : root.cells.Narrow)
    (hsize : roundUp (rebuiltEnd layout
      (root.reserve hidden (newStrings layout.strings) reservation).block
      (newStrings layout.strings).strings) 4 < 2 ^ 32) :
    Accepted xlen (rebuilt layout (root.reserve hidden (newStrings layout.strings) reservation).block
        (newStrings layout.strings).strings)
      ⟨rebuilt layout (root.reserve hidden (newStrings layout.strings) reservation).block
          (newStrings layout.strings).strings,
        roundUp (rebuiltEnd layout
          (root.reserve hidden (newStrings layout.strings) reservation).block
          (newStrings layout.strings).strings) 4, layout.reservations,
        headerSize + layout.reservations.length,
        (root.reserve hidden (newStrings layout.strings) reservation).block,
        (newStrings layout.strings).strings⟩
      (root.reserve hidden (newStrings layout.strings) reservation) := by
  obtain ⟨_, _, _, hlaid⟩ := h.laidOut
  have hround := @le_roundUp (rebuiltEnd layout
    (root.reserve hidden (newStrings layout.strings) reservation).block
    (newStrings layout.strings).strings) 4 (by decide)
  have hend : layout.strings.length + 45 ≤ rebuiltEnd layout
      (root.reserve hidden (newStrings layout.strings) reservation).block
      (newStrings layout.strings).strings := by
    have hnew : layout.strings.length + 45 = (newStrings layout.strings).strings.length := by
      simp only [newStrings, List.length_append]
      rfl
    rw [rebuiltEnd]
    omega
  have hvalid := h.valid.reserve haccepts hcells (by omega) hidden
  exact ⟨rfl, ⟨_, _, _, hlaid.rebuilt_laidOut hvalid.four_dvd hsize⟩, rfl, hvalid⟩

/-- `prepare_next_stage` of a blob that validates is a blob that validates. -/
theorem prepareNextStage_validates {output : ByteString}
    (firmwareReservation : Option Reservation) (hidden : List ByteString)
    (hvalid : validate xlen source = .ok ())
    (hprepare : prepareNextStage xlen source firmwareReservation hidden = .ok output) :
    validate xlen output = .ok () := by
  obtain ⟨layout, root, h⟩ := validate_iff_accepted.mp hvalid
  cases firmwareReservation with
  | none =>
    rw [h.prepare_none] at hprepare
    simp only [bind_eq_ok_iff, pure_eq_ok_iff] at hprepare
    obtain ⟨-, -, -, -, rfl⟩ := hprepare
    have haccepted := h.hidden hidden
    exact validate_iff_accepted.mpr ⟨_, _, haccepted⟩
  | some reservation =>
    have hresult := (h.prepare_some_iff hidden reservation).mp hprepare
    obtain ⟨-, -, haccepts, hcells, -, hsize⟩ := hresult.1
    rw [hresult.2]
    have haccepted := h.reserved hidden haccepts hcells hsize
    exact validate_iff_accepted.mpr ⟨_, _, haccepted⟩

end Prepare

/-! ## A blob -/

/-- The header with an empty reservation map, and a block of words. -/
def blobOf (words : List Nat) (strings : ByteString) : ByteString :=
  ([magic, 56 + 4 * words.length + strings.length, 56, 56 + 4 * words.length, 40, 17, 16, 0,
      strings.length, 4 * words.length].flatMap (beBytes 4)) ++
    List.replicate 16 0 ++ words.flatMap (beBytes 4) ++ strings

/-- A root with a node `a`. -/
def smallBlob : ByteString :=
  blobOf [beginNodeWord, 0, beginNodeWord, 0x61000000, endNodeWord, endNodeWord, endWord] []

theorem exists_ok_of_isOk {α : Type} {p : Fallible α} (h : p.isOk = true) : ∃ a, p = .ok a := by
  cases p with
  | ok a => exact ⟨a, rfl⟩
  | error stop => cases h

/-- The node `a` hidden and memory reserved. -/
theorem prepareNextStage_validates_small :
    ∃ output, prepareNextStage .rv64 smallBlob (some ⟨0x80000000, 0x40000, by decide⟩)
        [ascii "/a"] = .ok output ∧ validate .rv64 output = .ok () := by
  have hvalid : validate .rv64 smallBlob = .ok () := by decide +kernel
  have hok : (prepareNextStage .rv64 smallBlob (some ⟨0x80000000, 0x40000, by decide⟩)
      [ascii "/a"]).isOk = true := by decide +kernel
  obtain ⟨output, hprepare⟩ := exists_ok_of_isOk hok
  exact ⟨output, hprepare, prepareNextStage_validates _ _ hvalid hprepare⟩

end RustSbi.DeviceTree
