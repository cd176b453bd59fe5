import RustSbi.DeviceTree.Plan

/-!
Rewriting of the device tree for the next stage (`patch/writer.rs`, `patch.rs`):
the emission of tokens, strings and the header, the hiding of nodes by `NOP`, and
the reservation of the firmware's memory.
-/

namespace RustSbi.DeviceTree

open Bytes

/-! ## Emission -/

/-- `push_u32`. -/
def pushU32 (output : ByteString) (value : Nat) : ByteString := output ++ beBytes 4 value

/-- `u32::try_from(value).map_err(|_| Error::Overflow)`. -/
def toU32 (value : Nat) : Fallible Nat := if value < 2 ^ 32 then .ok value else fail .overflow

@[simp] theorem toU32_eq_ok_iff {value result : Nat} :
    toU32 value = .ok result ↔ result = value ∧ value < 2 ^ 32 := by
  unfold toU32
  split
  · next h =>
    constructor
    · rintro ⟨⟩
      exact ⟨rfl, h⟩
    · rintro ⟨rfl, -⟩
      rfl
  · next h =>
    constructor
    · rintro ⟨⟩
    · rintro ⟨-, hlt⟩
      exact (h hlt).elim

/-- `push_cells`; the value is a `u64`. -/
def pushCells (output : ByteString) (value count : Nat) : Fallible ByteString :=
  if count = 1 then do
    let value ← toU32 value
    return output ++ beBytes 4 value
  else if count = 2 then
    return output ++ beBytes 4 (value / 2 ^ 32 % 2 ^ 32) ++ beBytes 4 (value % 2 ^ 32)
  else fail .invalidArgs

/-- `push_begin_node`. -/
def pushBeginNode (output name : ByteString) : Fallible ByteString := do
  reject (name.contains 0) .invalidArgs
  return padTo (pushU32 output beginNodeWord ++ name ++ [0]) 4

/-- `push_property`. -/
def pushProperty (output : ByteString) (nameOffset : Nat) (value : ByteString) :
    Fallible ByteString := do
  let length ← toU32 value.length
  return padTo (pushU32 (pushU32 (pushU32 output propertyWord) length) nameOffset ++ value) 4

/-- `append_string`: the offset of the new string, and the strings with it. -/
def appendString (strings name : ByteString) : Fallible (Nat × ByteString) := do
  let offset ← toU32 strings.length
  return (offset, strings ++ name ++ [0])

/-- `write_header_field`. -/
def writeHeaderField (xlen : Xlen) (output : ByteString) (offset value : Nat) :
    Fallible ByteString := do
  let value ← toU32 value
  let stop ← addUsize xlen offset 4
  let _ ← orFail (slice output offset stop) .invalidArgs
  return overwrite output offset (beBytes 4 value)

/-- `rebuild`. -/
def rebuild (xlen : Xlen) (layout : Layout) (structureBlock strings : ByteString) :
    Fallible ByteString := do
  let reservationsOffset ← alignUp xlen headerSize 8
  let afterReservations ← addUsize xlen reservationsOffset layout.reservations.length
  let structureOffset ← alignUp xlen afterReservations 4
  let stringsOffset ← addUsize xlen structureOffset structureBlock.length
  let stringsEnd ← addUsize xlen stringsOffset strings.length
  let totalSize ← alignUp xlen stringsEnd 4
  let header ← indexTo layout.source headerSize
  let output := padTo (padTo header 8 ++ layout.reservations) 4
  let output := padTo (output ++ structureBlock ++ strings) 4
  let output ← writeHeaderField xlen output totalSizeOffset totalSize
  let output ← writeHeaderField xlen output structureOffsetOffset structureOffset
  let output ← writeHeaderField xlen output stringsOffsetOffset stringsOffset
  let output ← writeHeaderField xlen output reservationsOffsetOffset reservationsOffset
  let output ← writeHeaderField xlen output stringsSizeOffset strings.length
  writeHeaderField xlen output structureSizeOffset structureBlock.length

/-! ## Edits -/

/-- `Reservation`. -/
structure Reservation where
  address : BitVec 64
  size : BitVec 64
  size_ne_zero : size ≠ 0#64

/-- `Reservation::new`. -/
def Reservation.new (address size : BitVec 64) : Option Reservation :=
  if h : size = 0#64 then none else some ⟨address, size, h⟩

/-- `format!("mmode_resv1@{:x}", address)`. -/
def Reservation.name (reservation : Reservation) : ByteString :=
  ascii "mmode_resv1@" ++
    (Nat.toDigits 16 reservation.address.toNat).map fun c => UInt8.ofNat c.toNat

/-- `NOP` words. -/
def nops (count : Nat) : ByteString := (List.replicate count (beBytes 4 nopWord)).flatten

/-- The words of one span that `nop_nodes` overwrites; a rest of the span that is
no whole word stays. -/
def nopSpan (structureBlock : ByteString) (span : Nat × Nat) : Fallible ByteString := do
  let words ← orFail (slice structureBlock span.1 span.2) .invalidArgs
  return overwrite structureBlock span.1 (nops (words.length / 4))

/-- `nop_nodes`. -/
def nopNodes (structureBlock : ByteString) (spans : List (Nat × Nat)) : Fallible ByteString :=
  spans.foldlM nopSpan structureBlock

/-- `validate`. -/
def validate (xlen : Xlen) (source : ByteString) : Fallible Unit := do
  let layout ← Layout.parse xlen source
  validateStructure xlen layout.structureBlock layout.strings

/-- The strings block with the names of the new properties, and their offsets. -/
structure NewStrings where
  addressCells : Nat
  sizeCells : Nat
  ranges : Nat
  reg : Nat
  noMap : Nat
  strings : ByteString

/-- The five calls of `append_string`. -/
def appendNames (strings : ByteString) : Fallible NewStrings := do
  let (addressCells, strings) ← appendString strings (ascii "#address-cells")
  let (sizeCells, strings) ← appendString strings (ascii "#size-cells")
  let (ranges, strings) ← appendString strings (ascii "ranges")
  let (reg, strings) ← appendString strings (ascii "reg")
  let (noMap, strings) ← appendString strings (ascii "no-map")
  return ⟨addressCells, sizeCells, ranges, reg, noMap, strings⟩

/-- The node of a reservation. -/
def firmwareChild (names : NewStrings) (cells : CellCounts) (reservation : Reservation)
    (childName : ByteString) : Fallible ByteString := do
  let child ← pushBeginNode [] childName
  let encodedRange ← pushCells [] reservation.address.toNat cells.addressCells
  let encodedRange ← pushCells encodedRange reservation.size.toNat cells.sizeCells
  let child ← pushProperty child names.reg encodedRange
  let child ← pushProperty child names.noMap []
  return pushU32 child endNodeWord

/-- A new reserved-memory node around a child. -/
def firmwareParent (names : NewStrings) (cells : CellCounts) (child : ByteString) :
    Fallible ByteString := do
  let parent ← pushBeginNode [] (ascii "reserved-memory")
  let parent ← pushProperty parent names.addressCells (beBytes 4 cells.addressCells)
  let parent ← pushProperty parent names.sizeCells (beBytes 4 cells.sizeCells)
  let parent ← pushProperty parent names.ranges []
  return pushU32 (parent ++ child) endNodeWord

/-- `add_firmware_reservation`. -/
def addFirmwareReservation (xlen : Xlen) (layout : Layout) (edits : EditPlan)
    (structureBlock : ByteString) (reservation : Reservation) (childName : ByteString) :
    Fallible ByteString := do
  reject (edits.reservedMemory.any fun reserved =>
    !reserved.acceptsFirmwareChild || reserved.cells != edits.rootCells ||
      edits.reservationExists) .invalidArgs
  let cells := (edits.reservedMemory.map ReservedMemory.cells).getD edits.rootCells
  validateCellWidths cells
  let names ← appendNames layout.strings
  let child ← firmwareChild names cells reservation childName
  let (insertionOffset, insertion) ←
    match edits.reservedMemory with
    | some reserved => pure (reserved.stop, child)
    | none => do
      let parent ← firmwareParent names cells child
      pure (edits.rootEnd, parent)
  let _ ← addUsize xlen structureBlock.length insertion.length
  let before ← indexTo structureBlock insertionOffset
  let after ← indexFrom structureBlock insertionOffset
  rebuild xlen layout (before ++ insertion ++ after) names.strings

/-- The output without a reservation: the source with the edited structure block. -/
def replaceStructure (xlen : Xlen) (source : ByteString) (layout : Layout)
    (structureBlock : ByteString) : Fallible ByteString := do
  let output ← indexTo source layout.totalSize
  let stop ← addUsize xlen layout.structureOffset structureBlock.length
  let _ ← orFail (slice output layout.structureOffset stop) .invalidArgs
  return overwrite output layout.structureOffset structureBlock

/-- `prepare_next_stage`. -/
def prepareNextStage (xlen : Xlen) (source : ByteString)
    (firmwareReservation : Option Reservation) (hiddenNodePaths : List ByteString) :
    Fallible ByteString := do
  reject (hiddenNodePaths.any fun path =>
    path.head? != some 0x2f || path == ascii "/" || path.contains 0) .invalidArgs
  let layout ← Layout.parse xlen source
  let edits ← planEdits xlen layout.structureBlock layout.strings hiddenNodePaths
    (firmwareReservation.map Reservation.name)
  let structureBlock ← nopNodes layout.structureBlock edits.hiddenNodes
  match firmwareReservation with
  | some reservation =>
    addFirmwareReservation xlen layout edits structureBlock reservation reservation.name
  | none => replaceStructure xlen source layout structureBlock

end RustSbi.DeviceTree
