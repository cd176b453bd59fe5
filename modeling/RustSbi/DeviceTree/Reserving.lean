import RustSbi.DeviceTree.Header
import RustSbi.DeviceTree.Hiding

/-!
The reservation of the firmware's memory. What the writer emits are the bytes of a
content, which is put at the end of the reserved-memory node or, around a new such
node, at the end of the root; the block with it validates again.
-/

namespace RustSbi.DeviceTree

open Bytes

/-! ## Emitted tokens -/

/-- The bytes that `push_begin_node` adds. -/
def beginRaw (name : ByteString) : ByteString :=
  beBytes 4 beginNodeWord ++ padTo (name ++ [0]) 4

/-- The bytes that `push_property` adds. -/
def propertyRaw (nameOffset : Nat) (value : ByteString) : ByteString :=
  beBytes 4 propertyWord ++ (beBytes 4 value.length ++ (beBytes 4 nameOffset ++ padTo value 4))

theorem spells_beginRaw {strings name : ByteString} (hzero : 0 ∉ name)
    (hutf8 : isUtf8 name = true) : Spells strings (beginRaw name) (.beginNode name) :=
  .beginNode ⟨padded_padTo _, hzero⟩ hutf8

theorem spells_propertyRaw {strings name value : ByteString} {nameOffset : Nat}
    (hname : NameAt strings nameOffset name) (hoffset : nameOffset < 2 ^ 32)
    (hvalue : value.length < 2 ^ 32) :
    Spells strings (propertyRaw nameOffset value) (.property name value) :=
  .property hname hoffset hvalue (padded_padTo _)

theorem four_dvd_beginRaw (name : ByteString) : 4 ∣ (beginRaw name).length := by
  have hpad : 4 ∣ (padTo (name ++ [0]) 4).length := by
    rw [length_padTo (by decide)]
    exact dvd_roundUp _ _
  rw [beginRaw, List.length_append, length_beBytes]
  omega

theorem four_dvd_propertyRaw (nameOffset : Nat) (value : ByteString) :
    4 ∣ (propertyRaw nameOffset value).length := by
  have hpad : 4 ∣ (padTo value 4).length := by
    rw [length_padTo (by decide)]
    exact dvd_roundUp _ _
  simp only [propertyRaw, List.length_append, length_beBytes]
  omega

theorem pushBeginNode_eq (output : ByteString) (houtput : 4 ∣ output.length) {name : ByteString}
    (hzero : 0 ∉ name) : pushBeginNode output name = .ok (output ++ beginRaw name) := by
  have hword : 4 ∣ (output ++ beBytes 4 beginNodeWord).length := by
    rw [List.length_append, length_beBytes]
    omega
  have hcontains : name.contains 0 = false := by simpa using hzero
  rw [pushBeginNode, hcontains, reject_false, ok_bind, pushU32, List.append_assoc,
    padTo_append (by decide) hword, List.append_assoc]
  rfl

theorem pushProperty_eq {output : ByteString} (houtput : 4 ∣ output.length) (nameOffset : Nat)
    {value : ByteString} (hvalue : value.length < 2 ^ 32) :
    pushProperty output nameOffset value = .ok (output ++ propertyRaw nameOffset value) := by
  have hlength : toU32 value.length = .ok value.length := toU32_eq_ok_iff.mpr ⟨rfl, hvalue⟩
  have hwords : 4 ∣ (output ++ beBytes 4 propertyWord ++ beBytes 4 value.length ++
      beBytes 4 nameOffset).length := by
    simp only [List.length_append, length_beBytes]
    omega
  rw [pushProperty, hlength, ok_bind, pushU32, pushU32, pushU32, padTo_append (by decide) hwords]
  simp only [propertyRaw, List.append_assoc]
  rfl

/-- `push_cells` writes a number of up to 64 bits that fits its cells. -/
theorem pushCells_eq_ok_iff {output result : ByteString} {value count : Nat} (hvalue : value < 2 ^ 64)
    (hcount : 1 ≤ count ∧ count ≤ 2) :
    pushCells output value count = .ok result ↔
      value < 2 ^ (32 * count) ∧ result = output ++ beBytes (4 * count) value := by
  obtain rfl | rfl : count = 1 ∨ count = 2 := by omega
  · simp only [pushCells, ↓reduceIte, bind_eq_ok_iff, toU32_eq_ok_iff, pure_eq_ok_iff]
    constructor
    · rintro ⟨_, ⟨rfl, hlt⟩, rfl⟩
      exact ⟨hlt, rfl⟩
    · rintro ⟨hlt, rfl⟩
      exact ⟨value, ⟨rfl, hlt⟩, rfl⟩
  · have hbytes : beBytes (4 * 2) value =
        beBytes 4 (value / 2 ^ 32 % 2 ^ 32) ++ beBytes 4 (value % 2 ^ 32) := by
      rw [show 4 * 2 = 4 + 4 from rfl, beBytes_add]
      exact congrArg₂ (· ++ ·) (beBytes_mod 4 _).symm (beBytes_mod 4 value).symm
    simp only [pushCells, show (2 : Nat) ≠ 1 by decide, ↓reduceIte, pure_eq_ok_iff, hbytes,
      List.append_assoc]
    constructor
    · rintro rfl
      exact ⟨hvalue, rfl⟩
    · rintro ⟨-, rfl⟩
      rfl

/-! ## The new names -/

/-- The strings block with the names of the new properties. -/
def newStrings (strings : ByteString) : NewStrings where
  addressCells := strings.length
  sizeCells := strings.length + 15
  ranges := strings.length + 27
  reg := strings.length + 34
  noMap := strings.length + 38
  strings := strings ++ (ascii "#address-cells" ++ [0] ++ (ascii "#size-cells" ++ [0] ++
    (ascii "ranges" ++ [0] ++ (ascii "reg" ++ [0] ++ (ascii "no-map" ++ [0])))))

theorem appendString_eq_ok_iff {strings name result : ByteString} {offset : Nat} :
    appendString strings name = .ok (offset, result) ↔
      strings.length < 2 ^ 32 ∧ offset = strings.length ∧ result = strings ++ (name ++ [0]) := by
  simp only [appendString, bind_eq_ok_iff, toU32_eq_ok_iff, pure_eq_ok_iff, Prod.mk.injEq,
    List.append_assoc]
  constructor
  · rintro ⟨_, ⟨rfl, hlt⟩, rfl, rfl⟩
    exact ⟨hlt, rfl, rfl⟩
  · rintro ⟨hlt, rfl, rfl⟩
    exact ⟨_, ⟨rfl, hlt⟩, rfl, rfl⟩

theorem appendNames_eq_ok_iff {strings : ByteString} {names : NewStrings} :
    appendNames strings = .ok names ↔
      strings.length + 38 < 2 ^ 32 ∧ names = newStrings strings := by
  have haddress : (ascii "#address-cells").length = 14 := rfl
  have hsize : (ascii "#size-cells").length = 11 := rfl
  have hranges : (ascii "ranges").length = 6 := rfl
  have hreg : (ascii "reg").length = 3 := rfl
  simp only [appendNames, bind_eq_ok_iff, appendString_eq_ok_iff, pure_eq_ok_iff, Prod.exists,
    and_assoc, exists_and_left, exists_eq_left, List.length_append, List.length_singleton, haddress,
    hsize, hranges, hreg, Nat.add_assoc, Nat.reduceAdd]
  constructor
  · rintro ⟨-, -, -, -, hlast, rfl⟩
    exact ⟨hlast, by simp only [newStrings, List.append_assoc]⟩
  · rintro ⟨hlast, rfl⟩
    exact ⟨by omega, by omega, by omega, by omega, hlast, by simp only [newStrings, List.append_assoc]⟩

theorem nameAt_of_parts {name : ByteString} (hname : IsText name) (before after : ByteString) :
    NameAt (before ++ (name ++ [0] ++ after)) before.length name :=
  ⟨⟨before, after, (List.append_assoc _ _ _).symm, rfl⟩, hname.not_mem, hname.isUtf8⟩

theorem isText_addressCells : IsText (ascii "#address-cells") := by decide +kernel

theorem isText_sizeCells : IsText (ascii "#size-cells") := by decide +kernel

theorem isText_ranges : IsText (ascii "ranges") := by decide +kernel

theorem isText_reg : IsText (ascii "reg") := by decide +kernel

theorem isText_noMap : IsText (ascii "no-map") := by decide +kernel

theorem isText_reservedMemory : IsText (ascii "reserved-memory") := by decide +kernel

/-- Every new name stands at its offset. -/
theorem newStrings_names (strings : ByteString) :
    NameAt (newStrings strings).strings (newStrings strings).addressCells (ascii "#address-cells") ∧
    NameAt (newStrings strings).strings (newStrings strings).sizeCells (ascii "#size-cells") ∧
    NameAt (newStrings strings).strings (newStrings strings).ranges (ascii "ranges") ∧
    NameAt (newStrings strings).strings (newStrings strings).reg (ascii "reg") ∧
    NameAt (newStrings strings).strings (newStrings strings).noMap (ascii "no-map") := by
  have haddress : (ascii "#address-cells").length = 14 := rfl
  have hsize : (ascii "#size-cells").length = 11 := rfl
  have hranges : (ascii "ranges").length = 6 := rfl
  have hreg : (ascii "reg").length = 3 := rfl
  refine ⟨nameAt_of_parts isText_addressCells _ _, ?_, ?_, ?_, ?_⟩
  · have hname := nameAt_of_parts isText_sizeCells (strings ++ (ascii "#address-cells" ++ [0]))
      (ascii "ranges" ++ [0] ++ (ascii "reg" ++ [0] ++ (ascii "no-map" ++ [0])))
    simpa only [newStrings, List.append_assoc, List.length_append, List.length_singleton, haddress]
      using hname
  · have hname := nameAt_of_parts isText_ranges (strings ++ (ascii "#address-cells" ++ [0] ++
      (ascii "#size-cells" ++ [0]))) (ascii "reg" ++ [0] ++ (ascii "no-map" ++ [0]))
    simpa only [newStrings, List.append_assoc, List.length_append, List.length_singleton, haddress,
      hsize] using hname
  · have hname := nameAt_of_parts isText_reg (strings ++ (ascii "#address-cells" ++ [0] ++
      (ascii "#size-cells" ++ [0] ++ (ascii "ranges" ++ [0])))) (ascii "no-map" ++ [0])
    simpa only [newStrings, List.append_assoc, List.length_append, List.length_singleton, haddress,
      hsize, hranges] using hname
  · have hname := nameAt_of_parts isText_noMap (strings ++ (ascii "#address-cells" ++ [0] ++
      (ascii "#size-cells" ++ [0] ++ (ascii "ranges" ++ [0] ++ (ascii "reg" ++ [0]))))) []
    simpa only [newStrings, List.append_assoc, List.append_nil, List.length_append,
      List.length_singleton, haddress, hsize, hranges, hreg] using hname

/-! ## The name of a reservation -/

/-- A hexadecimal digit is an ASCII character, and neither NUL nor `@`. -/
theorem hexDigit_byte {n : Nat} {c : Char} (h : c ∈ Nat.toDigits 16 n) :
    (UInt8.ofNat c.toNat ≠ 0 ∧ UInt8.ofNat c.toNat < 0x80) ∧ UInt8.ofNat c.toNat ≠ 0x40 := by
  have hdigit : ∀ d < 16, (UInt8.ofNat (Nat.digitChar d).toNat ≠ 0 ∧
      UInt8.ofNat (Nat.digitChar d).toNat < 0x80) ∧
      UInt8.ofNat (Nat.digitChar d).toNat ≠ 0x40 := by decide +kernel
  induction n using Nat.strong_induction_on with
  | _ n ih =>
    rw [Nat.toDigits_eq_if (by decide)] at h
    split at h
    · next hlt =>
      obtain rfl := List.mem_singleton.mp h
      exact hdigit n hlt
    · next hge =>
      rcases List.mem_append.mp h with hmem | hmem
      · exact ih (n / 16) (by omega) hmem
      · obtain rfl := List.mem_singleton.mp hmem
        exact hdigit (n % 16) (Nat.mod_lt _ (by decide))

theorem Reservation.name_isText (reservation : Reservation) : IsText reservation.name := by
  intro byte hbyte
  rcases List.mem_append.mp hbyte with hmem | hmem
  · have hall : IsText (ascii "mmode_resv1@") := by decide +kernel
    exact hall byte hmem
  · obtain ⟨c, hc, rfl⟩ := List.mem_map.mp hmem
    exact (hexDigit_byte hc).1

/-! ## The content of a reservation -/

/-- The value of `reg`: the address and the size in their cells. -/
def Reservation.reg (reservation : Reservation) (cells : CellCounts) : ByteString :=
  beBytes (4 * cells.addressCells) reservation.address.toNat ++
    beBytes (4 * cells.sizeCells) reservation.size.toNat

/-- The address and the size fit their cells. -/
def Reservation.Fits (reservation : Reservation) (cells : CellCounts) : Prop :=
  reservation.address.toNat < 2 ^ (32 * cells.addressCells) ∧
    reservation.size.toNat < 2 ^ (32 * cells.sizeCells)

instance (reservation : Reservation) (cells : CellCounts) : Decidable (reservation.Fits cells) :=
  inferInstanceAs (Decidable (_ ∧ _))

/-- The cell counts that the writer can fill. -/
def CellCounts.Narrow (cells : CellCounts) : Prop :=
  (1 ≤ cells.addressCells ∧ cells.addressCells ≤ 2) ∧ 1 ≤ cells.sizeCells ∧ cells.sizeCells ≤ 2

theorem validateCellWidths_eq_ok_iff {cells : CellCounts} :
    validateCellWidths cells = .ok () ↔ cells.Narrow := by
  simp only [validateCellWidths, reject_eq_ok_iff, Bool.or_eq_false_iff, Bool.not_eq_eq_eq_not,
    Bool.not_false, Bool.and_eq_true, decide_eq_true_eq, CellCounts.Narrow]

/-- The node of a reservation. -/
def childContent (names : NewStrings) (cells : CellCounts) (reservation : Reservation) : Content :=
  .node (beginRaw reservation.name) reservation.name
    (.property (propertyRaw names.reg (reservation.reg cells)) (ascii "reg") (reservation.reg cells)
      (.property (propertyRaw names.noMap []) (ascii "no-map") [] .nil)) .nil

/-- A new reserved-memory node around it. -/
def parentContent (names : NewStrings) (cells : CellCounts) (reservation : Reservation) : Content :=
  .node (beginRaw (ascii "reserved-memory")) (ascii "reserved-memory")
    (.property (propertyRaw names.addressCells (beBytes 4 cells.addressCells))
      (ascii "#address-cells") (beBytes 4 cells.addressCells)
      (.property (propertyRaw names.sizeCells (beBytes 4 cells.sizeCells)) (ascii "#size-cells")
        (beBytes 4 cells.sizeCells)
        (.property (propertyRaw names.ranges []) (ascii "ranges") []
          (childContent names cells reservation)))) .nil

theorem length_reg (reservation : Reservation) (cells : CellCounts) :
    (reservation.reg cells).length = 4 * (cells.addressCells + cells.sizeCells) := by
  rw [Reservation.reg, List.length_append, length_beBytes, length_beBytes]
  omega

/-- The writer emits the bytes of the node, if the reservation fits the cells. -/
theorem firmwareChild_eq_ok_iff {names : NewStrings} {cells : CellCounts} (hcells : cells.Narrow)
    {reservation : Reservation} {child : ByteString} :
    firmwareChild names cells reservation reservation.name = .ok child ↔
      reservation.Fits cells ∧ child = (childContent names cells reservation).bytes := by
  have hbegin : pushBeginNode [] reservation.name = .ok (beginRaw reservation.name) :=
    pushBeginNode_eq [] (by simp) reservation.name_isText.not_mem
  have hfour := four_dvd_beginRaw reservation.name
  have hreg : (reservation.reg cells).length < 2 ^ 32 := by
    obtain ⟨⟨-, haddress⟩, -, hsize⟩ := hcells
    rw [length_reg]
    omega
  have hproperty : pushProperty (beginRaw reservation.name) names.reg (reservation.reg cells) =
      .ok (beginRaw reservation.name ++ propertyRaw names.reg (reservation.reg cells)) :=
    pushProperty_eq hfour names.reg hreg
  have hfour' : 4 ∣ (beginRaw reservation.name ++
      propertyRaw names.reg (reservation.reg cells)).length := by
    rw [List.length_append]
    exact Nat.dvd_add hfour (four_dvd_propertyRaw _ _)
  have hnoMap : pushProperty (beginRaw reservation.name ++
      propertyRaw names.reg (reservation.reg cells)) names.noMap [] =
      .ok (beginRaw reservation.name ++ propertyRaw names.reg (reservation.reg cells) ++
        propertyRaw names.noMap []) := pushProperty_eq hfour' names.noMap (by decide)
  have hbytes : (childContent names cells reservation).bytes =
      pushU32 (beginRaw reservation.name ++ propertyRaw names.reg (reservation.reg cells) ++
        propertyRaw names.noMap []) endNodeWord := by
    simp [childContent, pushU32]
  simp only [firmwareChild, hbegin, ok_bind, bind_eq_ok_iff,
    pushCells_eq_ok_iff reservation.address.isLt hcells.1,
    pushCells_eq_ok_iff reservation.size.isLt hcells.2, pure_eq_ok_iff, List.nil_append, and_assoc,
    exists_and_left, exists_eq_left]
  rw [← Reservation.reg, hproperty]
  simp only [Except.ok.injEq, exists_eq_left', hnoMap, hbytes, Reservation.Fits, and_assoc]
  rw [eq_comm (a := child)]

/-- The writer emits the bytes of the new reserved-memory node. -/
theorem firmwareParent_eq (names : NewStrings) (cells : CellCounts) (reservation : Reservation) :
    firmwareParent names cells (childContent names cells reservation).bytes =
      .ok (parentContent names cells reservation).bytes := by
  have hbegin : pushBeginNode [] (ascii "reserved-memory") = .ok (beginRaw (ascii "reserved-memory")) :=
    pushBeginNode_eq [] (by simp) isText_reservedMemory.not_mem
  have hfour := four_dvd_beginRaw (ascii "reserved-memory")
  have hcell : ∀ n, (beBytes 4 n).length < 2 ^ 32 := by
    intro n
    rw [length_beBytes]
    decide
  rw [firmwareParent, hbegin, ok_bind, pushProperty_eq hfour _ (hcell _), ok_bind,
    pushProperty_eq _ _ (hcell _), ok_bind, pushProperty_eq _ _ (by decide), ok_bind]
  · simp only [parentContent, Content.bytes_node, Content.bytes_property, Content.bytes_nil, pushU32,
      List.append_assoc, List.append_nil]
    rfl
  · simp only [List.length_append]
    exact Nat.dvd_add (Nat.dvd_add hfour (four_dvd_propertyRaw _ _)) (four_dvd_propertyRaw _ _)
  · rw [List.length_append]
    exact Nat.dvd_add hfour (four_dvd_propertyRaw _ _)

/-! ## The new nodes validate -/

theorem childContent_spelled {strings : ByteString} (hstrings : strings.length + 38 < 2 ^ 32)
    {cells : CellCounts} (hcells : cells.Narrow) (reservation : Reservation) :
    (childContent (newStrings strings) cells reservation).Spelled (newStrings strings).strings := by
  obtain ⟨-, -, -, hreg, hnoMap⟩ := newStrings_names strings
  have hlength : (reservation.reg cells).length < 2 ^ 32 := by
    obtain ⟨⟨-, haddress⟩, -, hsize⟩ := hcells
    rw [length_reg]
    omega
  have hregOffset : (newStrings strings).reg < 2 ^ 32 := by
    show strings.length + 34 < 2 ^ 32
    omega
  simp only [childContent, Content.spelled_node, Content.spelled_property, Content.spelled_nil,
    and_true]
  exact ⟨spells_beginRaw reservation.name_isText.not_mem reservation.name_isText.isUtf8,
    spells_propertyRaw hreg hregOffset hlength, spells_propertyRaw hnoMap hstrings (by decide)⟩

theorem parentContent_spelled {strings : ByteString} (hstrings : strings.length + 38 < 2 ^ 32)
    {cells : CellCounts} (hcells : cells.Narrow) (reservation : Reservation) :
    (parentContent (newStrings strings) cells reservation).Spelled (newStrings strings).strings := by
  obtain ⟨haddress, hsize, hranges, -, -⟩ := newStrings_names strings
  have haddressOffset : (newStrings strings).addressCells < 2 ^ 32 := by
    show strings.length < 2 ^ 32
    omega
  have hsizeOffset : (newStrings strings).sizeCells < 2 ^ 32 := by
    show strings.length + 15 < 2 ^ 32
    omega
  have hrangesOffset : (newStrings strings).ranges < 2 ^ 32 := by
    show strings.length + 27 < 2 ^ 32
    omega
  have hcell : ∀ n, (beBytes 4 n).length < 2 ^ 32 := by
    intro n
    rw [length_beBytes]
    decide
  simp only [parentContent, Content.spelled_node, Content.spelled_property, Content.spelled_nil,
    and_true]
  exact ⟨spells_beginRaw isText_reservedMemory.not_mem isText_reservedMemory.isUtf8,
    spells_propertyRaw haddress haddressOffset (hcell _),
    spells_propertyRaw hsize hsizeOffset (hcell _), spells_propertyRaw hranges hrangesOffset (by decide),
    childContent_spelled hstrings hcells reservation⟩

theorem validateRegLength_reg {xlen : Xlen} {cells : CellCounts} (hcells : cells.Narrow)
    (reservation : Reservation) :
    validateRegLength xlen (reservation.reg cells) cells = .ok () := by
  have hwords := xlen.four_gigabytes_le_words
  obtain ⟨⟨haddress, haddress'⟩, hsize, hsize'⟩ := hcells
  have hmod : 4 * (cells.addressCells + cells.sizeCells) %
      ((cells.addressCells + cells.sizeCells) * 4) = 0 := by
    rw [Nat.mul_comm, Nat.mod_self]
  have hword : ¬ xlen.words ≤ cells.addressCells + cells.sizeCells := by omega
  have hbytes : ¬ xlen.words ≤ (cells.addressCells + cells.sizeCells) * 4 := by omega
  have hzero : cells.addressCells + cells.sizeCells ≠ 0 := by omega
  simp [validateRegLength, length_reg, hmod, hword, hbytes]
  omega

theorem ValidationNode.record_reg {xlen : Xlen} {known : ValidationNode} {parentCells : CellCounts}
    {value : ByteString} (h : validateRegLength xlen value parentCells = .ok ()) :
    known.record xlen parentCells (ascii "reg") value = .ok known := by
  have haddress : ascii "reg" ≠ ascii "#address-cells" := by decide +kernel
  have hsize : ascii "reg" ≠ ascii "#size-cells" := by decide +kernel
  rw [ValidationNode.record, if_neg haddress, if_neg hsize, if_pos rfl, h]
  rfl

theorem ValidationNode.record_other {xlen : Xlen} {known : ValidationNode}
    {parentCells : CellCounts} {name value : ByteString} (haddress : name ≠ ascii "#address-cells")
    (hsize : name ≠ ascii "#size-cells") (hreg : name ≠ ascii "reg") :
    known.record xlen parentCells name value = .ok known := by
  rw [ValidationNode.record, if_neg haddress, if_neg hsize, if_neg hreg]
  rfl

theorem singleCell_beBytes {xlen : Xlen} {n : Nat} (h : n < 2 ^ 32) :
    singleCell xlen (beBytes 4 n) = .ok n :=
  singleCell_eq_ok_iff.mpr ⟨length_beBytes 4 n, (readBE_beBytes h).symm⟩

theorem childContent_check {xlen : Xlen} {names : NewStrings} {cells : CellCounts}
    (hcells : cells.Narrow) (reservation : Reservation) {depth : Nat} (hdepth : depth < maxFdtDepth)
    (parentCells : CellCounts) {known : ValidationNode} (hknown : known.cells = cells) :
    (childContent names cells reservation).check xlen depth parentCells known =
      .ok { known with hasChild := true } := by
  have hnoMap : ValidationNode.new.record xlen cells (ascii "no-map") [] = .ok .new :=
    ValidationNode.record_other (by decide +kernel) (by decide +kernel) (by decide +kernel)
  have hreg : ValidationNode.new.record xlen cells (ascii "reg") (reservation.reg cells) = .ok .new :=
    ValidationNode.record_reg (validateRegLength_reg hcells reservation)
  have hroom : decide (maxFdtDepth ≤ depth) = false := by simpa using hdepth
  have hnew : ValidationNode.new.hasChild = false := rfl
  simp only [childContent, Content.check, hroom, hnew, hknown, reject_false, ok_bind, hreg, hnoMap]

theorem parentContent_check {xlen : Xlen} {names : NewStrings} {cells : CellCounts}
    (hcells : cells.Narrow) (reservation : Reservation) {depth : Nat}
    (hdepth : depth + 1 < maxFdtDepth) (parentCells : CellCounts) (known : ValidationNode) :
    (parentContent names cells reservation).check xlen depth parentCells known =
      .ok { known with hasChild := true } := by
  have haddress : singleCell xlen (beBytes 4 cells.addressCells) = .ok cells.addressCells :=
    singleCell_beBytes (by have := hcells.1.2; omega)
  have hsize : singleCell xlen (beBytes 4 cells.sizeCells) = .ok cells.sizeCells :=
    singleCell_beBytes (by have := hcells.2.2; omega)
  have hfirst : ValidationNode.new.record xlen known.cells (ascii "#address-cells")
      (beBytes 4 cells.addressCells) = .ok ⟨some cells.addressCells, none, false⟩ := by
    rw [ValidationNode.record, if_pos rfl, haddress]
    rfl
  have hsecond : ValidationNode.record xlen ⟨some cells.addressCells, none, false⟩ known.cells
      (ascii "#size-cells") (beBytes 4 cells.sizeCells) =
        .ok ⟨some cells.addressCells, some cells.sizeCells, false⟩ := by
    have hne : ascii "#size-cells" ≠ ascii "#address-cells" := by decide +kernel
    rw [ValidationNode.record, if_neg hne, if_pos rfl, hsize]
    rfl
  have hthird : ValidationNode.record xlen ⟨some cells.addressCells, some cells.sizeCells, false⟩
      known.cells (ascii "ranges") [] = .ok ⟨some cells.addressCells, some cells.sizeCells, false⟩ :=
    ValidationNode.record_other (by decide +kernel) (by decide +kernel) (by decide +kernel)
  have hroom : decide (maxFdtDepth ≤ depth) = false := by
    rw [decide_eq_false_iff_not]
    omega
  have hnew : ValidationNode.new.hasChild = false := rfl
  simp only [parentContent, Content.check, hroom, hnew, reject_false, ok_bind, hfirst, hsecond,
    hthird]
  rw [childContent_check hcells reservation hdepth _ rfl]
  rfl

/-! ## The place of the reservation -/

/-- The content of the root with its hidden nodes turned into `NOP`s and a node put at
the end of the reserved-memory node. The place is kept when that node is hidden, so
the new node then stands among the children of the root. -/
def Content.reserve (hidden : List ByteString) (path : ByteString) :
    Content → (child : Content) → Content
  | .nil, _ => .nil
  | .nop rest, child => .nop (rest.reserve hidden path child)
  | .property raw name value rest, child =>
    .property raw name value (rest.reserve hidden path child)
  | .node raw name inner rest, child =>
    let inside := EditPlanner.pushName path name false
    if EditPlanner.isReservedMemoryName name then
      if inside ∈ hidden then
        .nops ((raw.length + inner.bytes.length) / 4) (child ++ .nop (rest.hide hidden path))
      else .node raw name (inner.hide hidden inside ++ child) (rest.hide hidden path)
    else if inside ∈ hidden then
      .nops ((raw.length + inner.bytes.length + 4) / 4) (rest.reserve hidden path child)
    else .node raw name (inner.hide hidden inside) (rest.reserve hidden path child)

namespace Content

/-- The bytes of the new node stand at the recorded offset. -/
theorem bytes_reserve {strings : ByteString} {c : Content} (hc : c.Spelled strings)
    (hidden : List ByteString) (path : ByteString) (child : Content) {offset : Nat}
    {reserved : ReservedMemory} (h : (c.reserved offset).head? = some reserved) :
    ∃ before after, (c.hide hidden path).bytes = before ++ after ∧
      offset + before.length = reserved.stop ∧
      (c.reserve hidden path child).bytes = before ++ child.bytes ++ after := by
  induction c generalizing offset with
  | nil => cases h
  | nop rest ih =>
    obtain ⟨before, after, hbytes, hlen, hreserve⟩ := ih (spelled_nop.mp hc) h
    refine ⟨beBytes 4 nopWord ++ before, after, ?_, ?_, ?_⟩
    · simp [Content.hide, hbytes]
    · rw [List.length_append, length_beBytes]
      omega
    · simp [Content.reserve, hreserve]
  | property raw name value rest ih =>
    obtain ⟨before, after, hbytes, hlen, hreserve⟩ := ih (spelled_property.mp hc).2 h
    refine ⟨raw ++ before, after, ?_, ?_, ?_⟩
    · simp [Content.hide, hbytes]
    · rw [List.length_append]
      omega
    · simp [Content.reserve, hreserve]
  | node raw name inner rest _ ih =>
    obtain ⟨hspells, hinner, hrest⟩ := spelled_node.mp hc
    set inside := EditPlanner.pushName path name false with hinside
    have hraw := hspells.four_dvd
    have hin := hinner.four_dvd
    have hlength := hinner.length_hide hidden inside
    cases hname : EditPlanner.isReservedMemoryName name with
    | true =>
      simp only [Content.reserved, hname, ↓reduceIte, List.cons_append, List.nil_append,
        List.head?_cons, Option.some.injEq] at h
      subst h
      by_cases hhidden : inside ∈ hidden
      · have hwords : (raw.length + inner.bytes.length + 4) / 4 =
            (raw.length + inner.bytes.length) / 4 + 1 := by omega
        have hsplit : nops ((raw.length + inner.bytes.length + 4) / 4) (rest.hide hidden path) =
            nops ((raw.length + inner.bytes.length) / 4) (nop (rest.hide hidden path)) := by
          rw [hwords, nops_succ]
        refine ⟨DeviceTree.nops ((raw.length + inner.bytes.length) / 4),
          (nop (rest.hide hidden path)).bytes, ?_, ?_, ?_⟩
        · simp only [Content.hide, ← hinside, hhidden, ↓reduceIte, hsplit, bytes_nops]
          rfl
        · show _ = offset + raw.length + inner.bytes.length
          rw [DeviceTree.length_nops]
          omega
        · simp only [Content.reserve, ← hinside, hhidden, hname, ↓reduceIte, bytes_nops, bytes_append,
            List.append_assoc]
          rfl
      · refine ⟨raw ++ (inner.hide hidden inside).bytes,
          beBytes 4 endNodeWord ++ (rest.hide hidden path).bytes, ?_, ?_, ?_⟩
        · simp [Content.hide, ← hinside, hhidden]
        · show _ = offset + raw.length + inner.bytes.length
          rw [List.length_append, hlength]
          omega
        · simp [Content.reserve, ← hinside, hhidden, hname]
    | false =>
      simp only [Content.reserved, hname, Bool.false_eq_true, ↓reduceIte, List.nil_append] at h
      obtain ⟨before, after, hbytes, hlen, hreserve⟩ := ih hrest h
      by_cases hhidden : inside ∈ hidden
      · refine ⟨DeviceTree.nops ((raw.length + inner.bytes.length + 4) / 4) ++ before, after,
          ?_, ?_, ?_⟩
        · simp only [Content.hide, ← hinside, hhidden, ↓reduceIte, bytes_nops, hbytes,
            List.append_assoc]
          rfl
        · rw [List.length_append, DeviceTree.length_nops]
          omega
        · simp only [Content.reserve, ← hinside, hhidden, hname, Bool.false_eq_true, ↓reduceIte,
            bytes_nops, hreserve, List.append_assoc]
          rfl
      · refine ⟨raw ++ (inner.hide hidden inside).bytes ++ beBytes 4 endNodeWord ++ before, after,
          ?_, ?_, ?_⟩
        · simp [Content.hide, ← hinside, hhidden, hbytes]
        · simp only [List.length_append, length_beBytes, hlength]
          omega
        · simp [Content.reserve, ← hinside, hhidden, hname, hreserve]

theorem declares_of_record {xlen : Xlen} {known known' : ValidationNode} {parentCells : CellCounts}
    {name value : ByteString} (h : known.record xlen parentCells name value = .ok known')
    (isReservedMemory : Bool) {d : Declared} (haddress : known.addressCells = d.addressCells)
    (hsize : known.sizeCells = d.sizeCells) :
    known'.addressCells = (d.property isReservedMemory name value).addressCells ∧
      known'.sizeCells = (d.property isReservedMemory name value).sizeCells := by
  unfold ValidationNode.record at h
  unfold Declared.property
  split at h
  · next hname =>
    simp only [bind_eq_ok_iff, pure_eq_ok_iff] at h
    obtain ⟨cell, hcell, _, -, rfl⟩ := h
    rw [if_pos hname, (singleCell_eq_ok_iff.mp hcell).2]
    exact ⟨rfl, hsize⟩
  split at h
  · next hother hname =>
    simp only [bind_eq_ok_iff, pure_eq_ok_iff] at h
    obtain ⟨cell, hcell, _, -, rfl⟩ := h
    rw [if_neg hother, if_pos hname, (singleCell_eq_ok_iff.mp hcell).2]
    exact ⟨haddress, rfl⟩
  · next hother hother' =>
    have hsame : known' = known := by
      split at h
      · simp only [bind_eq_ok_iff, pure_eq_ok_iff] at h
        obtain ⟨_, -, rfl⟩ := h
        rfl
      · cases h
        rfl
    subst hsame
    rw [if_neg hother, if_neg hother']
    split
    · exact ⟨haddress, hsize⟩
    split
    · exact ⟨haddress, hsize⟩
    · exact ⟨haddress, hsize⟩

/-- The validator and the planner read the same cell counts. -/
theorem declared_of_check {xlen : Xlen} {c : Content} {depth : Nat} {parentCells : CellCounts}
    {known known' : ValidationNode} (h : c.check xlen depth parentCells known = .ok known')
    (isReservedMemory : Bool) {d : Declared} (haddress : known.addressCells = d.addressCells)
    (hsize : known.sizeCells = d.sizeCells) :
    known'.addressCells = (c.declared isReservedMemory d).addressCells ∧
      known'.sizeCells = (c.declared isReservedMemory d).sizeCells := by
  induction c generalizing known d with
  | nil =>
    cases h
    exact ⟨haddress, hsize⟩
  | nop rest ih => exact ih h haddress hsize
  | property raw name value rest ih =>
    simp only [check, bind_eq_ok_iff] at h
    obtain ⟨-, -, known₁, hrecord, hrest⟩ := h
    obtain ⟨haddress', hsize'⟩ := declares_of_record hrecord isReservedMemory haddress hsize
    exact ih hrest haddress' hsize'
  | node raw name inner rest _ ih =>
    simp only [check, bind_eq_ok_iff] at h
    obtain ⟨-, -, _, -, hrest⟩ := h
    exact ih hrest haddress hsize

/-- After a child, nothing changes what is known of a node. -/
theorem check_after_child {xlen : Xlen} {c : Content} {depth : Nat} {parentCells : CellCounts}
    {known known' : ValidationNode} (h : c.check xlen depth parentCells known = .ok known')
    (hchild : known.hasChild = true) : known' = known := by
  induction c with
  | nil =>
    cases h
    rfl
  | nop rest ih => exact ih h
  | property raw name value rest ih =>
    simp only [check, hchild, bind_eq_ok_iff, reject_eq_ok_iff, Bool.true_eq_false, false_and,
      exists_false] at h
  | node raw name inner rest _ ih =>
    simp only [check, bind_eq_ok_iff] at h
    obtain ⟨-, -, _, -, hrest⟩ := h
    have hsame : ({ known with hasChild := true } : ValidationNode) = known := by
      rw [← hchild]
    rw [hsame] at hrest
    exact ih hrest

theorem cells_of_check {xlen : Xlen} {c : Content} {depth : Nat} {parentCells : CellCounts}
    {known : ValidationNode} (h : c.check xlen depth parentCells .new = .ok known)
    (isReservedMemory : Bool) : known.cells = (c.declared isReservedMemory .fresh).cells := by
  obtain ⟨haddress, hsize⟩ := declared_of_check h isReservedMemory (d := .fresh) rfl rfl
  rw [ValidationNode.cells, Declared.cells, haddress, hsize]

/-- The content with the reservation passes its checks. -/
theorem check_reserve {xlen : Xlen} {c child : Content} {depth : Nat}
    (hdepth : depth + 1 < maxFdtDepth) {parentCells cells : CellCounts}
    (hchild : ∀ depth < maxFdtDepth, ∀ parentCells, ∀ known : ValidationNode, known.cells = cells →
      child.check xlen depth parentCells known = .ok { known with hasChild := true })
    {a b b' : ValidationNode} (hab : a.Eases b)
    (h : c.check xlen depth parentCells b = .ok b') {offset : Nat} {reserved : ReservedMemory}
    (hreserved : (c.reserved offset).head? = some reserved) (hcells : reserved.cells = cells)
    (hroot : b'.cells = cells) (hidden : List ByteString) (path : ByteString) :
    ∃ a', (c.reserve hidden path child).check xlen depth parentCells a = .ok a' := by
  induction c generalizing a b b' offset with
  | nil => cases hreserved
  | nop rest ih => exact ih hab h hreserved hroot
  | property raw name value rest ih =>
    simp only [check, bind_eq_ok_iff, reject_eq_ok_iff] at h
    obtain ⟨-, hnone, b₁, hrecord, hrest⟩ := h
    obtain ⟨a₁, hrecord', hab'⟩ := hab.record hrecord
    obtain ⟨a', hrest'⟩ := ih hab' hrest hreserved hroot
    have hnone' : a.hasChild = false := by
      by_contra htrue
      rw [hab.hasChild (by simpa using htrue)] at hnone
      cases hnone
    refine ⟨a', ?_⟩
    simp only [Content.reserve, check, bind_eq_ok_iff, reject_eq_ok_iff]
    exact ⟨(), hnone', a₁, hrecord', hrest'⟩
  | node raw name inner rest _ ih =>
    simp only [check, bind_eq_ok_iff, reject_eq_ok_iff] at h
    obtain ⟨-, hroom, c', hinner, hrest⟩ := h
    have hab' : ({ a with hasChild := true } : ValidationNode).Eases { b with hasChild := true } :=
      ⟨hab.addressCells, hab.sizeCells, fun _ => rfl⟩
    have heased : a.Eases { b with hasChild := true } :=
      ⟨hab.addressCells, hab.sizeCells, fun _ => rfl⟩
    obtain ⟨c₁, hinner', hease⟩ := check_hide (.refl .new) hinner hidden
      (EditPlanner.pushName path name false)
    obtain ⟨a₁, hrest', -⟩ := check_hide hab' hrest hidden path
    cases hname : EditPlanner.isReservedMemoryName name with
    | true =>
      simp only [Content.reserved, hname, ↓reduceIte, List.cons_append, List.nil_append,
        List.head?_cons, Option.some.injEq] at hreserved
      subst hreserved
      simp only [Content.reserve, hname, ↓reduceIte]
      split
      · -- The new node is a child of the root, whose cells are the same.
        have hlast := check_after_child hrest rfl
        have hcells' : a.cells = cells := by
          rw [hab.cells, ← hroot, hlast]
          rfl
        refine ⟨a₁, ?_⟩
        rw [check_nops, check_append, hchild depth (by omega) parentCells a hcells', ok_bind]
        exact hrest'
      · have hcells' : c₁.cells = cells := by
          rw [hease.cells, cells_of_check hinner true]
          exact hcells
        refine ⟨a₁, ?_⟩
        simp only [check, check_append, bind_eq_ok_iff, reject_eq_ok_iff, hab.cells]
        exact ⟨(), hroom, { c₁ with hasChild := true },
          ⟨c₁, hinner', hchild (depth + 1) hdepth b.cells c₁ hcells'⟩, hrest'⟩
    | false =>
      simp only [Content.reserved, hname, Bool.false_eq_true, ↓reduceIte,
        List.nil_append] at hreserved
      simp only [Content.reserve, hname, Bool.false_eq_true, ↓reduceIte]
      split
      · rw [check_nops]
        exact ih heased hrest hreserved hroot
      · obtain ⟨a₂, hrest₂⟩ := ih hab' hrest hreserved hroot
        refine ⟨a₂, ?_⟩
        simp only [check, bind_eq_ok_iff, reject_eq_ok_iff, hab.cells]
        exact ⟨(), hroom, c₁, hinner', hrest₂⟩

theorem Spelled.reserve {strings : ByteString} {c child : Content} (hc : c.Spelled strings)
    (hchild : child.Spelled strings) (hidden : List ByteString) (path : ByteString) :
    (c.reserve hidden path child).Spelled strings := by
  induction c with
  | nil => exact hc
  | nop rest ih => exact spelled_nop.mpr (ih (spelled_nop.mp hc))
  | property raw name value rest ih =>
    obtain ⟨hspells, hrest⟩ := spelled_property.mp hc
    exact spelled_property.mpr ⟨hspells, ih hrest⟩
  | node raw name inner rest _ ih =>
    obtain ⟨hspells, hinner, hrest⟩ := spelled_node.mp hc
    have hinner' := hinner.hide hidden (EditPlanner.pushName path name false)
    have hrest' := hrest.hide hidden path
    rw [Content.reserve]
    split
    · split
      · exact spelled_nops.mpr (spelled_append.mpr ⟨hchild, spelled_nop.mpr hrest'⟩)
      · exact spelled_node.mpr ⟨hspells, spelled_append.mpr ⟨hinner', hchild⟩, hrest'⟩
    · split
      · exact spelled_nops.mpr (ih hrest)
      · exact spelled_node.mpr ⟨hspells, hinner', ih hrest⟩

end Content

end RustSbi.DeviceTree
