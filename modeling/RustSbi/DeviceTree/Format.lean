import RustSbi.Target
import RustSbi.Lib.Bytes
import RustSbi.Lib.Checked
import RustSbi.Lib.Loop

/-!
Checked access to the version-17 binary device tree (`patch/format.rs`): header
words, the three blocks and their order, and the reads of tokens, names and
property values. Offsets are values of `usize`, and an access that the source
does not check is one that can panic here.
-/

namespace RustSbi.DeviceTree

open Bytes

/-! ## Results -/

/-- How a call ends without a value. -/
inductive Stop
  | error (e : Error)
  | panic (p : Checked.Panic)
  deriving DecidableEq, Repr

/-- What a call of this module returns. -/
abbrev Fallible (α : Type) := Except Stop α

section Results

variable {α β : Type}

/-- `Err(e)`. -/
def fail (e : Error) : Fallible α := .error (.error e)

/-- `Option::ok_or`. -/
def orFail (o : Option α) (e : Error) : Fallible α :=
  match o with
  | some a => .ok a
  | none => fail e

@[simp] theorem fail_ne_ok {e : Error} {a : α} : (fail e : Fallible α) ≠ .ok a := nofun

@[simp] theorem orFail_eq_ok_iff {o : Option α} {e : Error} {a : α} :
    orFail o e = .ok a ↔ o = some a := by
  cases o <;> simp [orFail]

@[simp] theorem bind_eq_ok_iff {p : Fallible α} {f : α → Fallible β} {b : β} :
    (p >>= f) = .ok b ↔ ∃ a, p = .ok a ∧ f a = .ok b := by
  cases p with
  | error e => simp [bind, Except.bind]
  | ok a => simp [bind, Except.bind]

@[simp] theorem pure_eq_ok_iff {a b : α} : (pure a : Fallible α) = .ok b ↔ a = b := by
  simp [pure, Except.pure]

@[simp] theorem ok_bind {a : α} {f : α → Fallible β} : (Except.ok a >>= f) = f a := rfl

/-- `if c { return Err(e) }`. -/
def reject (c : Bool) (e : Error) : Fallible Unit := if c then fail e else .ok ()

@[simp] theorem reject_false {e : Error} : reject false e = .ok () := rfl

@[simp] theorem reject_eq_ok_iff {c : Bool} {e : Error} {u : Unit} :
    reject c e = .ok u ↔ c = false := by
  cases c <;> simp [reject]

end Results

/-! ## The format -/

/-- `MAGIC`. -/
def magic : Nat := 0xd00dfeed

/-- `HEADER_SIZE`. -/
def headerSize : Nat := 40

/-- `RESERVATION_ENTRY_SIZE`. -/
def reservationEntrySize : Nat := 16

/-- `MAGIC_OFFSET`. -/
def magicOffset : Nat := 0

/-- `TOTAL_SIZE_OFFSET`. -/
def totalSizeOffset : Nat := 4

/-- `STRUCTURE_OFFSET_OFFSET`. -/
def structureOffsetOffset : Nat := 8

/-- `STRINGS_OFFSET_OFFSET`. -/
def stringsOffsetOffset : Nat := 12

/-- `RESERVATIONS_OFFSET_OFFSET`. -/
def reservationsOffsetOffset : Nat := 16

/-- `VERSION_OFFSET`. -/
def versionOffset : Nat := 20

/-- `LAST_COMPATIBLE_VERSION_OFFSET`. -/
def lastCompatibleVersionOffset : Nat := 24

/-- `STRINGS_SIZE_OFFSET`. -/
def stringsSizeOffset : Nat := 32

/-- `STRUCTURE_SIZE_OFFSET`. -/
def structureSizeOffset : Nat := 36

/-- `SUPPORTED_VERSION`. -/
def supportedVersion : Nat := 17

/-- `BEGIN_NODE`. -/
def beginNodeWord : Nat := 1

/-- `END_NODE`. -/
def endNodeWord : Nat := 2

/-- `PROPERTY`. -/
def propertyWord : Nat := 3

/-- `NOP`. -/
def nopWord : Nat := 4

/-- `END`. -/
def endWord : Nat := 9

/-- `DEFAULT_ADDRESS_CELLS`. -/
def defaultAddressCells : Nat := 2

/-- `DEFAULT_SIZE_CELLS`. -/
def defaultSizeCells : Nat := 1

/-! ## Checked reads -/

section Reads

variable (xlen : Xlen)

/-- `checked_add(..).ok_or(Error::Overflow)`. -/
def addUsize (a b : Nat) : Fallible Nat := orFail (checkedAdd xlen a b) .overflow

@[simp] theorem addUsize_eq_ok_iff {a b c : Nat} :
    addUsize xlen a b = .ok c ↔ c = a + b ∧ a + b < xlen.words := by
  rw [addUsize, orFail_eq_ok_iff, checkedAdd_eq_some_iff]

/-- `bytes[..stop]`. -/
def indexTo (bytes : ByteString) (stop : Nat) : Fallible ByteString :=
  if stop ≤ bytes.length then .ok (bytes.take stop) else .error (.panic .indexOutOfBounds)

/-- `bytes[start..]`. -/
def indexFrom (bytes : ByteString) (start : Nat) : Fallible ByteString :=
  if start ≤ bytes.length then .ok (bytes.drop start) else .error (.panic .indexOutOfBounds)

/-- `bytes[start..stop]`. -/
def indexRange (bytes : ByteString) (start stop : Nat) : Fallible ByteString :=
  match slice bytes start stop with
  | some part => .ok part
  | none => .error (.panic .indexOutOfBounds)

@[simp] theorem indexTo_eq_ok_iff {bytes part : ByteString} {stop : Nat} :
    indexTo bytes stop = .ok part ↔ stop ≤ bytes.length ∧ bytes.take stop = part := by
  unfold indexTo
  split <;> simp [*]

@[simp] theorem indexFrom_eq_ok_iff {bytes part : ByteString} {start : Nat} :
    indexFrom bytes start = .ok part ↔ start ≤ bytes.length ∧ bytes.drop start = part := by
  unfold indexFrom
  split <;> simp [*]

@[simp] theorem indexRange_eq_ok_iff {bytes part : ByteString} {start stop : Nat} :
    indexRange bytes start stop = .ok part ↔ slice bytes start stop = some part := by
  unfold indexRange
  split <;> simp [*]

/-- `read_u32`; a slice of four bytes always converts to an array of four. -/
def readU32 (bytes : ByteString) (offset : Nat) : Fallible Nat := do
  let stop ← addUsize xlen offset 4
  let encoded ← orFail (slice bytes offset stop) .invalidArgs
  return readBE encoded

/-- `read_usize`. -/
def readUsize (bytes : ByteString) (offset : Nat) : Fallible Nat := do
  let value ← readU32 xlen bytes offset
  if value < xlen.words then return value else fail .overflow

/-- `align_up`, for an alignment that is a power of two. -/
def alignUp (value alignment : Nat) : Fallible Nat := do
  let sum ← addUsize xlen value (alignment - 1)
  return sum / alignment * alignment

/-- `checked_slice`. -/
def checkedSlice (source : ByteString) (offset length totalSize : Nat) : Fallible ByteString := do
  let stop ← addUsize xlen offset length
  reject (totalSize < stop) .invalidArgs
  orFail (slice source offset stop) .invalidArgs

/-- `take_u32`, with the offset after it. -/
def takeU32 (bytes : ByteString) (offset : Nat) : Fallible (Nat × Nat) := do
  let value ← readU32 xlen bytes offset
  let next ← addUsize xlen offset 4
  return (value, next)

/-- `take_c_string`, with the offset after it. -/
def takeCString (bytes : ByteString) (offset : Nat) : Fallible (ByteString × Nat) := do
  let tail ← orFail (sliceFrom bytes offset) .invalidArgs
  let length ← orFail (tail.findIdx? (· == 0)) .invalidArgs
  let name ← indexTo tail length
  reject (!isUtf8 name) .invalidArgs
  let encodedLength ← addUsize xlen length 1
  let aligned ← alignUp xlen encodedLength 4
  let next ← addUsize xlen offset aligned
  reject (bytes.length < next) .invalidArgs
  return (name, next)

/-- `take_aligned`, with the offset after it. -/
def takeAligned (bytes : ByteString) (offset length : Nat) : Fallible (ByteString × Nat) := do
  let stop ← addUsize xlen offset length
  let value ← orFail (slice bytes offset stop) .invalidArgs
  let aligned ← alignUp xlen length 4
  let next ← addUsize xlen offset aligned
  reject (bytes.length < next) .invalidArgs
  return (value, next)

/-- `string_at`. -/
def stringAt (strings : ByteString) (offset : Nat) : Fallible ByteString := do
  let tail ← orFail (sliceFrom strings offset) .invalidArgs
  let length ← orFail (tail.findIdx? (· == 0)) .invalidArgs
  let name ← indexTo tail length
  reject (!isUtf8 name) .invalidArgs
  return name

/-! ### What a successful read says -/

variable {xlen}

theorem readU32_eq_ok_iff {bytes : ByteString} {offset value : Nat} :
    readU32 xlen bytes offset = .ok value ↔
      value < 2 ^ 32 ∧ StandsAt bytes offset (beBytes 4 value) ∧ offset + 4 < xlen.words := by
  simp only [readU32, bind_eq_ok_iff, addUsize_eq_ok_iff, orFail_eq_ok_iff, pure_eq_ok_iff]
  constructor
  · rintro ⟨_, ⟨rfl, hword⟩, encoded, hslice, rfl⟩
    obtain ⟨hstands, hlen⟩ := slice_eq_some_iff_standsAt.mp hslice
    have hfour : encoded.length = 4 := by omega
    have hbytes := beBytes_readBE encoded
    rw [hfour] at hbytes
    have hlt := readBE_lt encoded
    rw [hfour] at hlt
    exact ⟨hlt, by rwa [hbytes], hword⟩
  · rintro ⟨hvalue, hstands, hword⟩
    refine ⟨_, ⟨rfl, hword⟩, beBytes 4 value, ?_, readBE_beBytes hvalue⟩
    exact slice_eq_some_iff_standsAt.mpr ⟨hstands, by rw [length_beBytes]⟩

theorem readUsize_eq_ok_iff {bytes : ByteString} {offset value : Nat} :
    readUsize xlen bytes offset = .ok value ↔ readU32 xlen bytes offset = .ok value := by
  simp only [readUsize, bind_eq_ok_iff]
  constructor
  · rintro ⟨a, ha, hif⟩
    split at hif
    · cases hif
      exact ha
    · cases hif
  · intro h
    have hlt := (readU32_eq_ok_iff.mp h).1
    have hwords := xlen.four_gigabytes_le_words
    exact ⟨value, h, if_pos (by omega)⟩

theorem alignUp_eq_ok_iff {value alignment result : Nat} :
    alignUp xlen value alignment = .ok result ↔
      result = roundUp value alignment ∧ value + (alignment - 1) < xlen.words := by
  simp only [alignUp, bind_eq_ok_iff, addUsize_eq_ok_iff, pure_eq_ok_iff, roundUp]
  constructor
  · rintro ⟨_, ⟨rfl, hword⟩, rfl⟩
    exact ⟨rfl, hword⟩
  · rintro ⟨rfl, hword⟩
    exact ⟨_, ⟨rfl, hword⟩, rfl⟩

theorem checkedSlice_eq_ok_iff {source part : ByteString} {offset length totalSize : Nat} :
    checkedSlice xlen source offset length totalSize = .ok part ↔
      StandsAt source offset part ∧ part.length = length ∧ offset + length ≤ totalSize ∧
        offset + length < xlen.words := by
  simp only [checkedSlice, bind_eq_ok_iff, addUsize_eq_ok_iff, reject_eq_ok_iff, orFail_eq_ok_iff,
    slice_eq_some_iff_standsAt]
  constructor
  · rintro ⟨_, ⟨rfl, hword⟩, _, htotal, hstands, hlen⟩
    have hle : ¬ totalSize < offset + length := by simpa using htotal
    exact ⟨hstands, by omega, by omega, hword⟩
  · rintro ⟨hstands, rfl, htotal, hword⟩
    exact ⟨_, ⟨rfl, hword⟩, (), by simpa using htotal, hstands, rfl⟩

theorem takeU32_eq_ok_iff {bytes : ByteString} {offset value next : Nat} :
    takeU32 xlen bytes offset = .ok (value, next) ↔
      value < 2 ^ 32 ∧ StandsAt bytes offset (beBytes 4 value) ∧ next = offset + 4 ∧
        next < xlen.words := by
  simp only [takeU32, bind_eq_ok_iff, readU32_eq_ok_iff, addUsize_eq_ok_iff, pure_eq_ok_iff,
    Prod.mk.injEq]
  constructor
  · rintro ⟨_, ⟨hvalue, hstands, hword⟩, _, ⟨rfl, -⟩, rfl, rfl⟩
    exact ⟨hvalue, hstands, rfl, hword⟩
  · rintro ⟨hvalue, hstands, rfl, hword⟩
    exact ⟨_, ⟨hvalue, hstands, hword⟩, _, ⟨rfl, hword⟩, rfl, rfl⟩

/-- A terminated text at the start of a tail. -/
theorem tail_text_iff {bytes name : ByteString} {offset : Nat} :
    (∃ tail, sliceFrom bytes offset = some tail ∧ ∃ length, tail.findIdx? (· == 0) = some length ∧
        length ≤ tail.length ∧ tail.take length = name) ↔
      StandsAt bytes offset (name ++ [0]) ∧ 0 ∉ name := by
  unfold sliceFrom
  constructor
  · rintro ⟨tail, htail, length, hfind, -, rfl⟩
    split at htail
    · next hle =>
      cases htail
      obtain ⟨text, rest, hdrop, rfl, hzero⟩ := position_zero_iff.mp hfind
      rw [hdrop, List.take_left]
      refine ⟨⟨bytes.take offset, rest, ?_, List.length_take_of_le hle⟩, hzero⟩
      calc bytes = bytes.take offset ++ bytes.drop offset := (List.take_append_drop offset bytes).symm
        _ = bytes.take offset ++ (text ++ [0]) ++ rest := by rw [hdrop]; simp
    · cases htail
  · rintro ⟨⟨before, after, rfl, rfl⟩, hzero⟩
    have hdrop : (before ++ (name ++ [0]) ++ after).drop before.length = name ++ 0 :: after := by
      rw [List.append_assoc, List.drop_left, List.append_assoc]
      rfl
    refine ⟨_, if_pos (by simp), name.length, ?_, ?_, ?_⟩
    · exact position_zero_iff.mpr ⟨name, after, hdrop, rfl, hzero⟩
    · rw [hdrop]
      simp
    · rw [hdrop, List.take_left]

/-- A part of a buffer with room for its padding. -/
theorem exists_padded_iff {bytes value : ByteString} {offset : Nat} :
    (∃ raw, Padded value raw ∧ StandsAt bytes offset raw) ↔
      StandsAt bytes offset value ∧ offset + roundUp value.length 4 ≤ bytes.length := by
  constructor
  · rintro ⟨_, ⟨pad, rfl, hlen⟩, hstands⟩
    have hle := hstands.le_length
    exact ⟨(standsAt_append_iff.mp hstands).1, by omega⟩
  · rintro ⟨hstands, hroom⟩
    have hle := @le_roundUp value.length 4 (by decide)
    have hpad := @StandsAt.of_le bytes (offset + value.length)
      (roundUp value.length 4 - value.length) (by omega)
    refine ⟨_, ⟨_, rfl, ?_⟩, standsAt_append_iff.mpr ⟨hstands, hpad⟩⟩
    rw [List.length_append, List.length_take, List.length_drop]
    omega

theorem takeCString_eq_ok_iff {bytes name : ByteString} {offset next : Nat} :
    takeCString xlen bytes offset = .ok (name, next) ↔
      ∃ raw, CString name raw ∧ isUtf8 name = true ∧ StandsAt bytes offset raw ∧
        next = offset + raw.length ∧ name.length + 4 < xlen.words ∧ next < xlen.words := by
  simp only [takeCString, bind_eq_ok_iff, orFail_eq_ok_iff, indexTo_eq_ok_iff, reject_eq_ok_iff,
    addUsize_eq_ok_iff, alignUp_eq_ok_iff, pure_eq_ok_iff, Prod.mk.injEq]
  constructor
  · rintro ⟨tail, htail, length, hfind, _, ⟨hle, htake⟩, _, hutf, _, ⟨rfl, hadd⟩, _, ⟨rfl, halign⟩,
      _, ⟨rfl, hword⟩, _, hroom, rfl, rfl⟩
    obtain ⟨hstands, hzero⟩ := tail_text_iff.mp ⟨tail, htail, length, hfind, hle, rfl⟩
    have hlength : (tail.take length).length = length := List.length_take_of_le hle
    have hroom : ¬ bytes.length < offset + roundUp (length + 1) 4 := by simpa using hroom
    obtain ⟨raw, hpadded, hraw⟩ := exists_padded_iff.mpr
      ⟨hstands, by rw [List.length_append, hlength, List.length_singleton]; omega⟩
    have hrawlen : raw.length = roundUp (length + 1) 4 := by
      obtain ⟨-, -, hlen⟩ := hpadded
      rw [hlen, List.length_append, hlength, List.length_singleton]
    refine ⟨raw, ⟨htake ▸ hpadded, htake ▸ hzero⟩, ?_, hraw, by rw [hrawlen], ?_, hword⟩
    · simpa using hutf
    · rw [← htake, hlength]
      omega
  · rintro ⟨raw, ⟨hpadded, hzero⟩, hutf, hraw, rfl, hadd, hword⟩
    have hle := hraw.le_length
    obtain ⟨hstands, hroom⟩ := exists_padded_iff.mp ⟨raw, hpadded, hraw⟩
    obtain ⟨tail, htail, length, hfind, hlen, rfl⟩ := tail_text_iff.mpr ⟨hstands, hzero⟩
    have hlength : (tail.take length).length = length := List.length_take_of_le hlen
    have hrawlen : raw.length = roundUp (length + 1) 4 := by
      obtain ⟨-, -, hlen⟩ := hpadded
      rw [hlen, List.length_append, hlength, List.length_singleton]
    rw [hlength] at hadd
    rw [hrawlen] at hle hword ⊢
    exact ⟨tail, htail, length, hfind, _, ⟨hlen, rfl⟩, (), by simpa using hutf, _,
      ⟨rfl, by omega⟩, _, ⟨rfl, by omega⟩, _, ⟨rfl, hword⟩, (), by simpa using hle, rfl, rfl⟩

theorem takeAligned_eq_ok_iff {bytes value : ByteString} {offset length next : Nat} :
    takeAligned xlen bytes offset length = .ok (value, next) ↔
      ∃ raw, Padded value raw ∧ value.length = length ∧ StandsAt bytes offset raw ∧
        next = offset + raw.length ∧ length + 3 < xlen.words ∧ next < xlen.words := by
  simp only [takeAligned, bind_eq_ok_iff, orFail_eq_ok_iff, reject_eq_ok_iff, addUsize_eq_ok_iff,
    alignUp_eq_ok_iff, pure_eq_ok_iff, Prod.mk.injEq, slice_eq_some_iff_standsAt]
  constructor
  · rintro ⟨_, ⟨rfl, hword⟩, value, ⟨hstands, hlen⟩, _, ⟨rfl, halign⟩, _, ⟨rfl, hnext⟩, _, hroom,
      rfl, rfl⟩
    have hlength : value.length = length := by omega
    have hroom : ¬ bytes.length < offset + roundUp length 4 := by simpa using hroom
    obtain ⟨raw, hpadded, hraw⟩ := exists_padded_iff.mpr ⟨hstands, by rw [hlength]; omega⟩
    have hrawlen : raw.length = roundUp length 4 := by
      obtain ⟨-, -, hlen⟩ := hpadded
      rw [hlen, hlength]
    exact ⟨raw, hpadded, hlength, hraw, by rw [hrawlen], halign, hnext⟩
  · rintro ⟨raw, hpadded, rfl, hraw, rfl, halign, hword⟩
    have hle := hraw.le_length
    obtain ⟨hstands, hroom⟩ := exists_padded_iff.mp ⟨raw, hpadded, hraw⟩
    have hrawlen : raw.length = roundUp value.length 4 := by
      obtain ⟨-, -, hlen⟩ := hpadded
      exact hlen
    have hround := @le_roundUp value.length 4 (by decide)
    rw [hrawlen] at hle hword ⊢
    exact ⟨_, ⟨rfl, by omega⟩, value, ⟨hstands, rfl⟩, _, ⟨rfl, halign⟩, _, ⟨rfl, hword⟩, (),
      by simpa using hle, rfl, rfl⟩

/-- The text at an offset of the strings block. -/
def NameAt (strings : ByteString) (offset : Nat) (name : ByteString) : Prop :=
  StandsAt strings offset (name ++ [0]) ∧ 0 ∉ name ∧ isUtf8 name = true

theorem stringAt_eq_ok_iff {strings name : ByteString} {offset : Nat} :
    stringAt strings offset = .ok name ↔ NameAt strings offset name := by
  simp only [stringAt, bind_eq_ok_iff, orFail_eq_ok_iff, indexTo_eq_ok_iff, reject_eq_ok_iff,
    pure_eq_ok_iff]
  constructor
  · rintro ⟨tail, htail, length, hfind, _, ⟨hle, htake⟩, _, hutf, rfl⟩
    obtain ⟨hstands, hzero⟩ := tail_text_iff.mp ⟨tail, htail, length, hfind, hle, htake⟩
    exact ⟨hstands, hzero, by simpa using hutf⟩
  · rintro ⟨hstands, hzero, hutf⟩
    obtain ⟨tail, htail, length, hfind, hle, htake⟩ := tail_text_iff.mpr ⟨hstands, hzero⟩
    exact ⟨tail, htail, length, hfind, _, ⟨hle, htake⟩, (), by simpa using hutf, rfl⟩

end Reads

/-! ## The header -/

section Header

variable (xlen : Xlen)

/-- The entry that `reservation_map_end` reads, with the offset after it. -/
def reservationEntry (source : ByteString) (totalSize offset : Nat) :
    Fallible (ByteString × Nat) := do
  let entry ← checkedSlice xlen source offset reservationEntrySize totalSize
  let next ← addUsize xlen offset reservationEntrySize
  return (entry, next)

theorem reservationEntry_eq_ok_iff {source entry : ByteString} {totalSize offset next : Nat} :
    reservationEntry xlen source totalSize offset = .ok (entry, next) ↔
      StandsAt source offset entry ∧ entry.length = 16 ∧ next = offset + 16 ∧ next ≤ totalSize ∧
        next < xlen.words := by
  simp only [reservationEntry, bind_eq_ok_iff, checkedSlice_eq_ok_iff, addUsize_eq_ok_iff,
    pure_eq_ok_iff, Prod.mk.injEq, reservationEntrySize]
  constructor
  · rintro ⟨_, ⟨hstands, hlen, htotal, hword⟩, _, ⟨rfl, -⟩, rfl, rfl⟩
    exact ⟨hstands, hlen, rfl, htotal, hword⟩
  · rintro ⟨hstands, hlen, rfl, htotal, hword⟩
    exact ⟨_, ⟨hstands, hlen, htotal, hword⟩, _, ⟨rfl, hword⟩, rfl, rfl⟩

/-- One round of the loop of `reservation_map_end`. -/
def reservationStep (source : ByteString) (totalSize offset : Nat) : Nat ⊕ Fallible Nat :=
  match reservationEntry xlen source totalSize offset with
  | .error stop => .inr (.error stop)
  | .ok (entry, next) => if entry.all (· == 0) then .inr (.ok next) else .inl next

theorem reservationStep_decreases (source : ByteString) (totalSize offset next : Nat)
    (h : reservationStep xlen source totalSize offset = .inl next) :
    totalSize - next < totalSize - offset := by
  unfold reservationStep at h
  split at h
  · cases h
  · next entry stop hentry =>
    obtain ⟨-, -, rfl, htotal, -⟩ := (reservationEntry_eq_ok_iff xlen).mp hentry
    split at h
    · cases h
    · cases h
      omega

/-- `reservation_map_end`. -/
def reservationMapEnd (source : ByteString) (start totalSize : Nat) : Fallible Nat := do
  reject (start < headerSize || start % 8 != 0) .invalidArgs
  Loop.run (reservationStep xlen source totalSize) (totalSize - ·)
    (reservationStep_decreases xlen source totalSize) start

/-- `Layout`. -/
structure Layout where
  source : ByteString
  totalSize : Nat
  reservations : ByteString
  structureOffset : Nat
  structureBlock : ByteString
  strings : ByteString
  deriving DecidableEq

/-- `Layout::parse`. -/
def Layout.parse (source : ByteString) : Fallible Layout := do
  reject (source.length < headerSize) .invalidArgs
  let found ← readU32 xlen source magicOffset
  reject (found != magic) .invalidArgs
  let totalSize ← readUsize xlen source totalSizeOffset
  reject (!(headerSize ≤ totalSize && totalSize ≤ source.length)) .invalidArgs
  let version ← readU32 xlen source versionOffset
  let lastCompatibleVersion ← readU32 xlen source lastCompatibleVersionOffset
  reject (version != supportedVersion || version < lastCompatibleVersion) .invalidArgs
  let structureOffset ← readUsize xlen source structureOffsetOffset
  let stringsOffset ← readUsize xlen source stringsOffsetOffset
  let reservationsOffset ← readUsize xlen source reservationsOffsetOffset
  let structureSize ← readUsize xlen source structureSizeOffset
  let stringsSize ← readUsize xlen source stringsSizeOffset
  reject (structureOffset % 4 != 0 || stringsOffset % 4 != 0 || reservationsOffset % 8 != 0)
    .invalidArgs
  let structureBlock ← checkedSlice xlen source structureOffset structureSize totalSize
  let strings ← checkedSlice xlen source stringsOffset stringsSize totalSize
  let reservationsEnd ← reservationMapEnd xlen source reservationsOffset totalSize
  let structureEnd ← addUsize xlen structureOffset structureSize
  let stringsEnd ← addUsize xlen stringsOffset stringsSize
  reject (reservationsOffset < headerSize || structureOffset < reservationsEnd ||
    stringsOffset < structureEnd || totalSize < stringsEnd) .invalidArgs
  let reservations ← indexRange source reservationsOffset reservationsEnd
  return ⟨source, totalSize, reservations, structureOffset, structureBlock, strings⟩

end Header

end RustSbi.DeviceTree
