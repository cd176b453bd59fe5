import RustSbi.DeviceTree.Patch

/-!
What `Layout::parse` accepts: the words of the header, the order of the three blocks,
and the terminated reservation map. The rewritten header is again one of these.
-/

namespace RustSbi.DeviceTree

open Bytes

/-! ## The reservation map -/

/-- Entries of sixteen bytes up to the first that is all zero, which is the last. -/
inductive ReservationMap : ByteString → Prop
  | last : ReservationMap (List.replicate 16 0)
  | entry {first rest : ByteString} (length : first.length = 16)
      (nonzero : first.all (· == 0) = false) (tail : ReservationMap rest) :
      ReservationMap (first ++ rest)

theorem ReservationMap.length {map : ByteString} (h : ReservationMap map) :
    16 ∣ map.length ∧ 16 ≤ map.length := by
  induction h with
  | last => decide
  | entry length _ _ ih =>
    rw [List.length_append, length]
    omega

theorem eq_replicate_of_all_zero {bytes : ByteString} (h : bytes.all (· == 0) = true) :
    bytes = List.replicate bytes.length 0 := by
  refine List.eq_replicate_of_mem fun byte hbyte => ?_
  simpa using List.all_eq_true.mp h byte hbyte

section Map

variable {xlen : Xlen} {source : ByteString} {totalSize : Nat}

/-- The loop of `reservation_map_end`. -/
def reservationRun (xlen : Xlen) (source : ByteString) (totalSize offset : Nat) : Fallible Nat :=
  Loop.run (reservationStep xlen source totalSize) (totalSize - ·)
    (reservationStep_decreases xlen source totalSize) offset

theorem reservationRun_of_map (hroom : totalSize < xlen.words) {map : ByteString}
    (hmap : ReservationMap map) {offset : Nat} (hstands : StandsAt source offset map)
    (hstop : offset + map.length ≤ totalSize) :
    reservationRun xlen source totalSize offset = .ok (offset + map.length) := by
  induction hmap generalizing offset with
  | last =>
    rw [List.length_replicate] at hstop
    have hentry : reservationEntry xlen source totalSize offset =
        .ok (List.replicate 16 0, offset + 16) :=
      (reservationEntry_eq_ok_iff xlen).mpr ⟨hstands, rfl, rfl, hstop, by omega⟩
    have hstep : reservationStep xlen source totalSize offset = .inr (.ok (offset + 16)) := by
      rw [reservationStep, hentry]
      rfl
    exact Loop.run_of_inr hstep
  | entry length nonzero _ ih =>
    next entry rest _ =>
    obtain ⟨hfirst, hrest⟩ := standsAt_append_iff.mp hstands
    rw [List.length_append, length] at hstop
    rw [length] at hrest
    have hentry : reservationEntry xlen source totalSize offset = .ok (entry, offset + 16) :=
      (reservationEntry_eq_ok_iff xlen).mpr ⟨hfirst, length, rfl, by omega, by omega⟩
    have hstep : reservationStep xlen source totalSize offset = .inl (offset + 16) := by
      rw [reservationStep, hentry]
      simp only [nonzero]
      rfl
    rw [reservationRun, Loop.run_of_inl hstep, List.length_append, length, ← Nat.add_assoc]
    exact ih hrest (by omega)

theorem map_of_reservationRun {offset stop : Nat}
    (h : reservationRun xlen source totalSize offset = .ok stop) :
    ∃ map, ReservationMap map ∧ StandsAt source offset map ∧ stop = offset + map.length ∧
      stop ≤ totalSize ∧ stop < xlen.words := by
  revert h
  refine Loop.induction (motive := fun offset =>
    reservationRun xlen source totalSize offset = .ok stop →
      ∃ map, ReservationMap map ∧ StandsAt source offset map ∧ stop = offset + map.length ∧
        stop ≤ totalSize ∧ stop < xlen.words)
    (reservationStep_decreases xlen source totalSize) (fun offset ih h => ?_) offset
  cases hentry : reservationEntry xlen source totalSize offset with
  | error e =>
    have hstep : reservationStep xlen source totalSize offset = .inr (.error e) := by
      rw [reservationStep, hentry]
    rw [reservationRun, Loop.run_of_inr hstep] at h
    cases h
  | ok result =>
    obtain ⟨entry, next⟩ := result
    obtain ⟨hstands, hlength, rfl, htotal, hword⟩ := (reservationEntry_eq_ok_iff xlen).mp hentry
    cases hzero : entry.all (· == 0) with
    | true =>
      have hstep : reservationStep xlen source totalSize offset = .inr (.ok (offset + 16)) := by
        simp only [reservationStep, hentry, hzero]
        rfl
      rw [reservationRun, Loop.run_of_inr hstep] at h
      cases h
      have hentries := eq_replicate_of_all_zero hzero
      rw [hlength] at hentries
      subst hentries
      exact ⟨_, .last, hstands, rfl, htotal, hword⟩
    | false =>
      have hstep : reservationStep xlen source totalSize offset = .inl (offset + 16) := by
        simp only [reservationStep, hentry, hzero]
        rfl
      rw [reservationRun, Loop.run_of_inl hstep] at h
      obtain ⟨map, hmap, hrest, rfl, hstop, hroom⟩ := ih _ hstep h
      refine ⟨entry ++ map, .entry hlength hzero hmap, ?_, ?_, hstop, hroom⟩
      · exact standsAt_append_iff.mpr ⟨hstands, hlength ▸ hrest⟩
      · rw [List.length_append, hlength, Nat.add_assoc]

theorem reservationMapEnd_eq_ok_iff (hroom : totalSize < xlen.words) {start stop : Nat} :
    reservationMapEnd xlen source start totalSize = .ok stop ↔
      headerSize ≤ start ∧ 8 ∣ start ∧ ∃ map, ReservationMap map ∧ StandsAt source start map ∧
        stop = start + map.length ∧ stop ≤ totalSize := by
  have hrun : ∀ start, Loop.run (reservationStep xlen source totalSize) (totalSize - ·)
      (reservationStep_decreases xlen source totalSize) start =
        reservationRun xlen source totalSize start := fun _ => rfl
  simp only [reservationMapEnd, bind_eq_ok_iff, reject_eq_ok_iff, Bool.or_eq_false_iff,
    decide_eq_false_iff_not, not_lt, bne_eq_false_iff_eq, hrun]
  constructor
  · rintro ⟨-, ⟨hheader, halign⟩, h⟩
    obtain ⟨map, hmap, hstands, hstop, htotal, -⟩ := map_of_reservationRun h
    exact ⟨hheader, Nat.dvd_of_mod_eq_zero halign, map, hmap, hstands, hstop, htotal⟩
  · rintro ⟨hheader, halign, map, hmap, hstands, rfl, htotal⟩
    exact ⟨(), ⟨hheader, Nat.mod_eq_zero_of_dvd halign⟩,
      reservationRun_of_map hroom hmap hstands htotal⟩

end Map

/-! ## The header -/

/-- A big-endian word of 32 bits at an offset. -/
def HasWord (bytes : ByteString) (offset value : Nat) : Prop :=
  value < 2 ^ 32 ∧ StandsAt bytes offset (beBytes 4 value)

/-- The header words of a blob and where its blocks stand. -/
structure LaidOut (layout : Layout) (reservationsOffset stringsOffset lastCompatible : Nat) :
    Prop where
  magicWord : HasWord layout.source magicOffset magic
  totalSizeWord : HasWord layout.source totalSizeOffset layout.totalSize
  versionWord : HasWord layout.source versionOffset supportedVersion
  lastCompatibleWord : HasWord layout.source lastCompatibleVersionOffset lastCompatible
  structureOffsetWord : HasWord layout.source structureOffsetOffset layout.structureOffset
  stringsOffsetWord : HasWord layout.source stringsOffsetOffset stringsOffset
  reservationsOffsetWord : HasWord layout.source reservationsOffsetOffset reservationsOffset
  structureSizeWord : HasWord layout.source structureSizeOffset layout.structureBlock.length
  stringsSizeWord : HasWord layout.source stringsSizeOffset layout.strings.length
  compatible : lastCompatible ≤ supportedVersion
  structureAligned : 4 ∣ layout.structureOffset
  stringsAligned : 4 ∣ stringsOffset
  reservationsAligned : 8 ∣ reservationsOffset
  reservations : StandsAt layout.source reservationsOffset layout.reservations
  structureBlock : StandsAt layout.source layout.structureOffset layout.structureBlock
  strings : StandsAt layout.source stringsOffset layout.strings
  map : ReservationMap layout.reservations
  header_le : headerSize ≤ reservationsOffset
  reservations_le : reservationsOffset + layout.reservations.length ≤ layout.structureOffset
  structure_le : layout.structureOffset + layout.structureBlock.length ≤ stringsOffset
  strings_le : stringsOffset + layout.strings.length ≤ layout.totalSize
  total_le : layout.totalSize ≤ layout.source.length

theorem readU32_iff_hasWord {xlen : Xlen} {bytes : ByteString} {offset value : Nat}
    (hoffset : offset ≤ headerSize) :
    readU32 xlen bytes offset = .ok value ↔ HasWord bytes offset value := by
  have hwords := xlen.four_gigabytes_le_words
  have hword : offset + 4 < xlen.words := by
    rw [headerSize] at hoffset
    omega
  rw [readU32_eq_ok_iff, HasWord]
  constructor
  · rintro ⟨hvalue, hstands, -⟩
    exact ⟨hvalue, hstands⟩
  · rintro ⟨hvalue, hstands⟩
    exact ⟨hvalue, hstands, hword⟩

theorem parse_eq_ok_iff {xlen : Xlen} {source : ByteString} {layout : Layout} :
    Layout.parse xlen source = .ok layout ↔
      layout.source = source ∧ ∃ reservationsOffset stringsOffset lastCompatible,
        LaidOut layout reservationsOffset stringsOffset lastCompatible := by
  have hwords := xlen.four_gigabytes_le_words
  have hread : ∀ {offset value : Nat}, offset ≤ headerSize →
      (readU32 xlen source offset = .ok value ↔ HasWord source offset value) :=
    readU32_iff_hasWord
  simp only [Layout.parse, bind_eq_ok_iff, reject_eq_ok_iff, readUsize_eq_ok_iff, pure_eq_ok_iff,
    checkedSlice_eq_ok_iff, addUsize_eq_ok_iff, indexRange_eq_ok_iff, Bool.or_eq_false_iff,
    Bool.not_eq_eq_eq_not, Bool.not_false, Bool.and_eq_true, decide_eq_true_eq,
    decide_eq_false_iff_not, not_lt, bne_eq_false_iff_eq]
  constructor
  · rintro ⟨-, hlength, _, hmagic, -, rfl, totalSize, htotal, -, ⟨hheader, hsource⟩, _, hversion,
      lastCompatible, hlast, -, ⟨rfl, hcompatible⟩, structureOffset, hstructure, stringsOffset,
      hstrings, reservationsOffset, hreservations, structureSize, hstructureSize, stringsSize,
      hstringsSize, -, ⟨⟨hstructureAligned, hstringsAligned⟩, hreservationsAligned⟩, block,
      ⟨hblock, rfl, hblockTotal, -⟩, strings, ⟨hstring, rfl, hstringTotal, -⟩, reservationsEnd, hmap,
      _, ⟨rfl, -⟩, _, ⟨rfl, -⟩, -, ⟨⟨⟨hfirst, hsecond⟩, hthird⟩, hfourth⟩, reservations, hslice, rfl⟩
    have htotal := (hread (by decide)).mp htotal
    have hroom : totalSize < xlen.words := htotal.1.trans_le hwords
    obtain ⟨-, -, map, hentries, hstands, rfl, -⟩ := (reservationMapEnd_eq_ok_iff hroom).mp hmap
    obtain ⟨hslice, hlen⟩ := slice_eq_some_iff_standsAt.mp hslice
    obtain rfl := hslice.unique hstands (by omega)
    exact ⟨rfl, reservationsOffset, stringsOffset, lastCompatible,
      { magicWord := (hread (by decide)).mp hmagic
        totalSizeWord := htotal
        versionWord := (hread (by decide)).mp hversion
        lastCompatibleWord := (hread (by decide)).mp hlast
        structureOffsetWord := (hread (by decide)).mp hstructure
        stringsOffsetWord := (hread (by decide)).mp hstrings
        reservationsOffsetWord := (hread (by decide)).mp hreservations
        structureSizeWord := (hread (by decide)).mp hstructureSize
        stringsSizeWord := (hread (by decide)).mp hstringsSize
        compatible := hcompatible
        structureAligned := Nat.dvd_of_mod_eq_zero hstructureAligned
        stringsAligned := Nat.dvd_of_mod_eq_zero hstringsAligned
        reservationsAligned := Nat.dvd_of_mod_eq_zero hreservationsAligned
        reservations := hstands
        structureBlock := hblock
        strings := hstring
        map := hentries
        header_le := hfirst
        reservations_le := hsecond
        structure_le := hthird
        strings_le := hfourth
        total_le := hsource }⟩
  · rintro ⟨rfl, reservationsOffset, stringsOffset, lastCompatible, h⟩
    obtain ⟨source, totalSize, reservations, structureOffset, block, strings⟩ := layout
    have hroom : totalSize < xlen.words := h.totalSizeWord.1.trans_le hwords
    have hmap := h.map.length
    have hheader := h.header_le
    have hfirst := h.reservations_le
    have hsecond := h.structure_le
    have hthird := h.strings_le
    have hsource := h.total_le
    simp only [headerSize] at hheader hfirst hsecond hthird hsource ⊢
    have hend : reservationMapEnd xlen source reservationsOffset totalSize =
        .ok (reservationsOffset + reservations.length) :=
      (reservationMapEnd_eq_ok_iff hroom).mpr
        ⟨h.header_le, h.reservationsAligned, reservations, h.map, h.reservations, rfl, by omega⟩
    refine ⟨(), by omega, _, (hread (by decide)).mpr h.magicWord, (), rfl, totalSize,
      (hread (by decide)).mpr h.totalSizeWord, (), ⟨by omega, hsource⟩, _,
      (hread (by decide)).mpr h.versionWord, lastCompatible,
      (hread (by decide)).mpr h.lastCompatibleWord, (), ⟨rfl, h.compatible⟩, structureOffset,
      (hread (by decide)).mpr h.structureOffsetWord, stringsOffset,
      (hread (by decide)).mpr h.stringsOffsetWord, reservationsOffset,
      (hread (by decide)).mpr h.reservationsOffsetWord, block.length,
      (hread (by decide)).mpr h.structureSizeWord, strings.length,
      (hread (by decide)).mpr h.stringsSizeWord, (),
      ⟨⟨Nat.mod_eq_zero_of_dvd h.structureAligned, Nat.mod_eq_zero_of_dvd h.stringsAligned⟩,
        Nat.mod_eq_zero_of_dvd h.reservationsAligned⟩, block,
      ⟨h.structureBlock, rfl, by omega, by omega⟩, strings, ⟨h.strings, rfl, by omega, by omega⟩, _,
      hend, _, ⟨rfl, by omega⟩, _, ⟨rfl, by omega⟩, (),
      ⟨⟨⟨hheader, hfirst⟩, hsecond⟩, hthird⟩, reservations, ?_, rfl⟩
    exact slice_eq_some_iff_standsAt.mpr ⟨h.reservations, rfl⟩

/-! ## The rewritten header -/

theorem writeHeaderField_eq_ok_iff {xlen : Xlen} {output result : ByteString} {offset value : Nat}
    (hoffset : offset ≤ headerSize) (hroom : offset + 4 ≤ output.length) :
    writeHeaderField xlen output offset value = .ok result ↔
      value < 2 ^ 32 ∧ result = overwrite output offset (beBytes 4 value) := by
  have hwords := xlen.four_gigabytes_le_words
  simp only [writeHeaderField, bind_eq_ok_iff, toU32_eq_ok_iff, addUsize_eq_ok_iff,
    orFail_eq_ok_iff, pure_eq_ok_iff]
  constructor
  · rintro ⟨_, ⟨rfl, hvalue⟩, _, -, _, -, rfl⟩
    exact ⟨hvalue, rfl⟩
  · rintro ⟨hvalue, rfl⟩
    obtain ⟨old, hold⟩ := exists_slice (Nat.le_add_right offset 4) hroom
    refine ⟨value, ⟨rfl, hvalue⟩, offset + 4, ⟨rfl, ?_⟩, old, hold, rfl⟩
    rw [headerSize] at hoffset
    omega

/-- The end of the strings block that `rebuild` writes. -/
def rebuiltEnd (layout : Layout) (structureBlock strings : ByteString) : Nat :=
  headerSize + layout.reservations.length + structureBlock.length + strings.length

/-- The output of `rebuild` before the header words are written. -/
def rebuiltBlocks (layout : Layout) (structureBlock strings : ByteString) : ByteString :=
  padTo (layout.source.take headerSize ++ layout.reservations ++ structureBlock ++ strings) 4

/-- Words written at their offsets, one after another. -/
def writeWords (bytes : ByteString) (fields : List (Nat × Nat)) : ByteString :=
  fields.foldl (fun bytes field => overwrite bytes field.1 (beBytes 4 field.2)) bytes

section Words

variable {bytes part : ByteString} {fields : List (Nat × Nat)}

theorem length_writeWords (h : ∀ field ∈ fields, field.1 + 4 ≤ bytes.length) :
    (writeWords bytes fields).length = bytes.length := by
  induction fields generalizing bytes with
  | nil => rfl
  | cons field fields ih =>
    obtain ⟨hfield, hfields⟩ := List.forall_mem_cons.mp h
    have hlen : (overwrite bytes field.1 (beBytes 4 field.2)).length = bytes.length :=
      length_overwrite (by rwa [length_beBytes])
    rw [← hlen] at hfields
    exact (ih hfields).trans hlen

/-- A part that no word meets stays. -/
theorem standsAt_writeWords (h : ∀ field ∈ fields, field.1 + 4 ≤ bytes.length) {start : Nat}
    (hdisjoint : ∀ field ∈ fields, start + part.length ≤ field.1 ∨ field.1 + 4 ≤ start) :
    StandsAt (writeWords bytes fields) start part ↔ StandsAt bytes start part := by
  induction fields generalizing bytes with
  | nil => rfl
  | cons field fields ih =>
    obtain ⟨hfield, hfields⟩ := List.forall_mem_cons.mp h
    obtain ⟨hfirst, hothers⟩ := List.forall_mem_cons.mp hdisjoint
    have hlen : (overwrite bytes field.1 (beBytes 4 field.2)).length = bytes.length :=
      length_overwrite (by rwa [length_beBytes])
    rw [← hlen] at hfields
    refine (ih hfields hothers).trans (standsAt_overwrite_iff ?_ ?_)
    · rwa [length_beBytes]
    · rwa [length_beBytes]

/-- Words that do not meet are all there. -/
theorem hasWord_writeWords (h : ∀ field ∈ fields, field.1 + 4 ≤ bytes.length)
    (hpairwise : fields.Pairwise fun a b => a.1 + 4 ≤ b.1 ∨ b.1 + 4 ≤ a.1) {offset value : Nat}
    (hmem : (offset, value) ∈ fields) (hvalue : value < 2 ^ 32) :
    HasWord (writeWords bytes fields) offset value := by
  induction fields generalizing bytes with
  | nil => exact (List.not_mem_nil hmem).elim
  | cons field fields ih =>
    obtain ⟨hfield, hfields⟩ := List.forall_mem_cons.mp h
    obtain ⟨hfirst, hothers⟩ := List.pairwise_cons.mp hpairwise
    have hlen : (overwrite bytes field.1 (beBytes 4 field.2)).length = bytes.length :=
      length_overwrite (by rwa [length_beBytes])
    rw [← hlen] at hfields
    rcases List.mem_cons.mp hmem with rfl | hmem
    · refine ⟨hvalue, (standsAt_writeWords hfields ?_).mpr ?_⟩
      · rw [length_beBytes]
        exact hfirst
      · exact standsAt_overwrite_self (by rwa [length_beBytes])
    · exact ih hfields hothers hmem

end Words

/-- The words of a header that `rebuild` writes. -/
def rebuiltFields (totalSize structureOffset stringsOffset reservationsOffset stringsSize
    structureSize : Nat) : List (Nat × Nat) :=
  [(totalSizeOffset, totalSize), (structureOffsetOffset, structureOffset),
    (stringsOffsetOffset, stringsOffset), (reservationsOffsetOffset, reservationsOffset),
    (stringsSizeOffset, stringsSize), (structureSizeOffset, structureSize)]

/-- The output of `rebuild`. -/
def rebuilt (layout : Layout) (structureBlock strings : ByteString) : ByteString :=
  writeWords (rebuiltBlocks layout structureBlock strings) (rebuiltFields
    (roundUp (rebuiltEnd layout structureBlock strings) 4)
    (headerSize + layout.reservations.length)
    (headerSize + layout.reservations.length + structureBlock.length) headerSize strings.length
    structureBlock.length)

/-- The output without a reservation. -/
def replaced (layout : Layout) (structureBlock : ByteString) : ByteString :=
  overwrite (layout.source.take layout.totalSize) layout.structureOffset structureBlock

section Rebuild

variable {xlen : Xlen} {layout : Layout} {reservationsOffset stringsOffset lastCompatible : Nat}
  {structureBlock strings output : ByteString}

theorem LaidOut.header_length (h : LaidOut layout reservationsOffset stringsOffset lastCompatible) :
    (layout.source.take headerSize).length = headerSize := by
  have hheader := h.header_le
  have hfirst := h.reservations_le
  have hsecond := h.structure_le
  have hthird := h.strings_le
  have hsource := h.total_le
  rw [List.length_take]
  omega

theorem LaidOut.length_rebuiltBlocks
    (h : LaidOut layout reservationsOffset stringsOffset lastCompatible)
    (structureBlock strings : ByteString) :
    (rebuiltBlocks layout structureBlock strings).length =
      roundUp (rebuiltEnd layout structureBlock strings) 4 := by
  rw [rebuiltBlocks, length_padTo (by decide)]
  simp only [List.length_append, h.header_length, rebuiltEnd]

/-- Header words are written if they all fit a `u32`. -/
theorem writeHeaderFields_eq_ok_iff {fields : List (Nat × Nat)} {blocks : ByteString}
    (hfit : ∀ field ∈ fields, field.1 + 4 ≤ headerSize) (hblocks : headerSize ≤ blocks.length) :
    fields.foldlM (fun output field => writeHeaderField xlen output field.1 field.2) blocks =
        .ok output ↔
      (∀ field ∈ fields, field.2 < 2 ^ 32) ∧ output = writeWords blocks fields := by
  induction fields generalizing blocks with
  | nil =>
    rw [List.foldlM_nil, pure_eq_ok_iff, eq_comm]
    simp [writeWords]
  | cons field fields ih =>
    obtain ⟨hfield, hfields⟩ := List.forall_mem_cons.mp hfit
    have hroom : field.1 + 4 ≤ blocks.length := hfield.trans hblocks
    have hlen : (overwrite blocks field.1 (beBytes 4 field.2)).length = blocks.length :=
      length_overwrite (by rwa [length_beBytes])
    rw [List.foldlM_cons, bind_eq_ok_iff, List.forall_mem_cons]
    simp only [writeHeaderField_eq_ok_iff (by omega : field.1 ≤ headerSize) hroom]
    constructor
    · rintro ⟨next, ⟨hvalue, hnext⟩, hrest⟩
      rw [hnext, ih hfields (by rw [hlen]; exact hblocks)] at hrest
      exact ⟨⟨hvalue, hrest.1⟩, hrest.2⟩
    · rintro ⟨⟨hvalue, hvalues⟩, houtput⟩
      exact ⟨_, ⟨hvalue, rfl⟩, (ih hfields (by rw [hlen]; exact hblocks)).mpr ⟨hvalues, houtput⟩⟩

theorem rebuiltFields_fit (totalSize structureOffset stringsOffset reservationsOffset stringsSize
    structureSize : Nat) :
    ∀ field ∈ rebuiltFields totalSize structureOffset stringsOffset reservationsOffset stringsSize
      structureSize, field.1 + 4 ≤ headerSize := by
  simp [rebuiltFields, totalSizeOffset, structureOffsetOffset, stringsOffsetOffset,
    reservationsOffsetOffset, stringsSizeOffset, structureSizeOffset, headerSize]

/-- The six words that `rebuild` writes. -/
theorem writeFields_eq_ok_iff {blocks : ByteString} (hblocks : headerSize ≤ blocks.length)
    {totalSize structureOffset stringsOffset reservationsOffset stringsSize structureSize : Nat} :
    (do
      let output ← writeHeaderField xlen blocks totalSizeOffset totalSize
      let output ← writeHeaderField xlen output structureOffsetOffset structureOffset
      let output ← writeHeaderField xlen output stringsOffsetOffset stringsOffset
      let output ← writeHeaderField xlen output reservationsOffsetOffset reservationsOffset
      let output ← writeHeaderField xlen output stringsSizeOffset stringsSize
      writeHeaderField xlen output structureSizeOffset structureSize) = .ok output ↔
      (totalSize < 2 ^ 32 ∧ structureOffset < 2 ^ 32 ∧ stringsOffset < 2 ^ 32 ∧
        reservationsOffset < 2 ^ 32 ∧ stringsSize < 2 ^ 32 ∧ structureSize < 2 ^ 32) ∧
      output = writeWords blocks (rebuiltFields totalSize structureOffset stringsOffset
        reservationsOffset stringsSize structureSize) := by
  have hwrite := @writeHeaderFields_eq_ok_iff xlen output _ blocks (rebuiltFields_fit totalSize
    structureOffset stringsOffset reservationsOffset stringsSize structureSize) hblocks
  simpa only [rebuiltFields, List.foldlM_cons, List.foldlM_nil, bind_pure, List.forall_mem_cons,
    List.not_mem_nil, false_implies, implies_true, and_true] using hwrite

/-- `rebuild` fails when the new blob is too large for its header. -/
theorem LaidOut.rebuild_eq_ok_iff
    (h : LaidOut layout reservationsOffset stringsOffset lastCompatible) :
    rebuild xlen layout structureBlock strings = .ok output ↔
      roundUp (rebuiltEnd layout structureBlock strings) 4 < 2 ^ 32 ∧
        output = rebuilt layout structureBlock strings := by
  have hwords := xlen.four_gigabytes_le_words
  have hmap := h.map.length.1
  have hheader := h.header_length
  have hsource : headerSize ≤ layout.source.length := by
    rw [← hheader]
    exact List.length_take_le' _ _
  have hfour : 4 ∣ headerSize + layout.reservations.length := by
    rw [headerSize]
    omega
  have hreservations : roundUp headerSize 8 = headerSize := by decide
  have hstructure : roundUp (headerSize + layout.reservations.length) 4 =
      headerSize + layout.reservations.length := roundUp_of_dvd (by decide) hfour
  have hblocks : padTo (padTo (padTo (layout.source.take headerSize) 8 ++ layout.reservations) 4 ++
      structureBlock ++ strings) 4 = rebuiltBlocks layout structureBlock strings := by
    have hpad : padTo (layout.source.take headerSize) 8 = layout.source.take headerSize :=
      padTo_of_dvd (by decide) (by rw [hheader]; decide)
    have hpad' : padTo (layout.source.take headerSize ++ layout.reservations) 4 =
        layout.source.take headerSize ++ layout.reservations :=
      padTo_of_dvd (by decide) (by rw [List.length_append, hheader]; exact hfour)
    rw [hpad, hpad', rebuiltBlocks]
  have hend : headerSize + layout.reservations.length + structureBlock.length + strings.length =
      rebuiltEnd layout structureBlock strings := rfl
  have hround := @le_roundUp (rebuiltEnd layout structureBlock strings) 4 (by decide)
  have hdvd := dvd_roundUp (rebuiltEnd layout structureBlock strings) 4
  have hlen : headerSize ≤ (rebuiltBlocks layout structureBlock strings).length := by
    rw [h.length_rebuiltBlocks]
    omega
  rw [rebuild, bind_eq_ok_iff]
  simp only [bind_eq_ok_iff (p := addUsize _ _ _), bind_eq_ok_iff (p := alignUp _ _ _),
    bind_eq_ok_iff (p := indexTo _ _), alignUp_eq_ok_iff, addUsize_eq_ok_iff, indexTo_eq_ok_iff,
    and_assoc, exists_eq_left, exists_and_left, exists_eq_left', hreservations, hstructure, hend,
    hblocks, writeFields_eq_ok_iff hlen]
  have hforty : headerSize = 40 := rfl
  constructor
  · rintro ⟨-, -, -, -, -, -, -, htotal, -, -, -, -, -, houtput⟩
    exact ⟨htotal, houtput⟩
  · rintro ⟨htotal, houtput⟩
    exact ⟨by omega, by omega, by omega, by omega, by omega, by omega, hsource, htotal, by omega,
      by omega, by omega, by omega, by omega, houtput⟩

theorem rebuiltFields_pairwise (totalSize structureOffset stringsOffset reservationsOffset
    stringsSize structureSize : Nat) :
    (rebuiltFields totalSize structureOffset stringsOffset reservationsOffset stringsSize
      structureSize).Pairwise fun a b => a.1 + 4 ≤ b.1 ∨ b.1 + 4 ≤ a.1 := by
  simp [rebuiltFields, totalSizeOffset, structureOffsetOffset, stringsOffsetOffset,
    reservationsOffsetOffset, stringsSizeOffset, structureSizeOffset]

namespace LaidOut

theorem headerSize_le_rebuiltBlocks
    (h : LaidOut layout reservationsOffset stringsOffset lastCompatible)
    (structureBlock strings : ByteString) :
    headerSize ≤ (rebuiltBlocks layout structureBlock strings).length := by
  have hround := @le_roundUp (rebuiltEnd layout structureBlock strings) 4 (by decide)
  have hend : rebuiltEnd layout structureBlock strings =
      headerSize + layout.reservations.length + structureBlock.length + strings.length := rfl
  rw [h.length_rebuiltBlocks]
  omega

/-- A word that `rebuild` does not write is the one of the source. -/
theorem rebuilt_keeps (h : LaidOut layout reservationsOffset stringsOffset lastCompatible)
    (structureBlock strings : ByteString) {offset value : Nat} (hoffset : offset + 4 ≤ headerSize)
    (hword : HasWord layout.source offset value)
    (hother : offset + 4 ≤ totalSizeOffset ∨
      reservationsOffsetOffset + 4 ≤ offset ∧ offset + 4 ≤ stringsSizeOffset) :
    HasWord (rebuilt layout structureBlock strings) offset value := by
  have hblocks := h.headerSize_le_rebuiltBlocks structureBlock strings
  refine ⟨hword.1, (standsAt_writeWords (fun field hfield => ?_) ?_).mpr ?_⟩
  · exact (rebuiltFields_fit _ _ _ _ _ _ field hfield).trans hblocks
  · rw [length_beBytes]
    simp only [totalSizeOffset, reservationsOffsetOffset, stringsSizeOffset] at hother
    simp only [rebuiltFields, totalSizeOffset, structureOffsetOffset, stringsOffsetOffset,
      reservationsOffsetOffset, stringsSizeOffset, structureSizeOffset, List.forall_mem_cons,
      List.not_mem_nil, false_implies, implies_true, and_true]
    omega
  · rw [rebuiltBlocks, padTo, List.append_assoc, List.append_assoc, List.append_assoc]
    exact hword.2.take_append (by rwa [length_beBytes]) _

/-- The blocks stand behind the header. -/
theorem rebuilt_block (h : LaidOut layout reservationsOffset stringsOffset lastCompatible)
    {part : ByteString} {offset : Nat} (hoffset : headerSize ≤ offset)
    (hpart : StandsAt (rebuiltBlocks layout structureBlock strings) offset part) :
    StandsAt (rebuilt layout structureBlock strings) offset part := by
  have hblocks := h.headerSize_le_rebuiltBlocks structureBlock strings
  refine (standsAt_writeWords (fun field hfield => ?_) fun field hfield => ?_).mpr hpart
  · exact (rebuiltFields_fit _ _ _ _ _ _ field hfield).trans hblocks
  · exact .inr ((rebuiltFields_fit _ _ _ _ _ _ field hfield).trans hoffset)

/-- The blob that `rebuild` writes is laid out. -/
theorem rebuilt_laidOut (h : LaidOut layout reservationsOffset stringsOffset lastCompatible)
    (hblock : 4 ∣ structureBlock.length)
    (hsize : roundUp (rebuiltEnd layout structureBlock strings) 4 < 2 ^ 32) :
    LaidOut ⟨rebuilt layout structureBlock strings,
        roundUp (rebuiltEnd layout structureBlock strings) 4, layout.reservations,
        headerSize + layout.reservations.length, structureBlock, strings⟩
      headerSize (headerSize + layout.reservations.length + structureBlock.length)
      lastCompatible := by
  have hforty : headerSize = 40 := rfl
  have hheader := h.header_length
  have hmap := h.map.length.1
  have hlen := h.length_rebuiltBlocks structureBlock strings
  have hblocks := h.headerSize_le_rebuiltBlocks structureBlock strings
  have hround := @le_roundUp (rebuiltEnd layout structureBlock strings) 4 (by decide)
  have hend : rebuiltEnd layout structureBlock strings =
      headerSize + layout.reservations.length + structureBlock.length + strings.length := rfl
  have hstructure : headerSize + layout.reservations.length < 2 ^ 32 := by omega
  have hstrings : headerSize + layout.reservations.length + structureBlock.length < 2 ^ 32 := by
    omega
  have hstructureSize : structureBlock.length < 2 ^ 32 := by omega
  have hstringsSize : strings.length < 2 ^ 32 := by omega
  have hword : ∀ {offset value : Nat}, (offset, value) ∈ rebuiltFields
      (roundUp (rebuiltEnd layout structureBlock strings) 4)
      (headerSize + layout.reservations.length)
      (headerSize + layout.reservations.length + structureBlock.length) headerSize strings.length
      structureBlock.length → value < 2 ^ 32 →
      HasWord (rebuilt layout structureBlock strings) offset value := by
    intro offset value hmem hvalue
    exact hasWord_writeWords (fun field hfield => (rebuiltFields_fit _ _ _ _ _ _ field hfield).trans
      hblocks) (rebuiltFields_pairwise _ _ _ _ _ _) hmem hvalue
  have hparts : rebuiltBlocks layout structureBlock strings =
      layout.source.take headerSize ++ (layout.reservations ++ (structureBlock ++ (strings ++
        List.replicate (roundUp (rebuiltEnd layout structureBlock strings) 4 -
          rebuiltEnd layout structureBlock strings) 0))) := by
    simp [rebuiltBlocks, padTo, hheader, hend, Nat.add_assoc]
  exact
    { magicWord := h.rebuilt_keeps _ _ (by decide) h.magicWord (by decide)
      totalSizeWord := hword (by simp [rebuiltFields]) hsize
      versionWord := h.rebuilt_keeps _ _ (by decide) h.versionWord (by decide)
      lastCompatibleWord := h.rebuilt_keeps _ _ (by decide) h.lastCompatibleWord (by decide)
      structureOffsetWord := hword (by simp [rebuiltFields]) hstructure
      stringsOffsetWord := hword (by simp [rebuiltFields]) hstrings
      reservationsOffsetWord := hword (by simp [rebuiltFields]) (by decide)
      structureSizeWord := hword (by simp [rebuiltFields]) hstructureSize
      stringsSizeWord := hword (by simp [rebuiltFields]) hstringsSize
      compatible := h.compatible
      structureAligned := by
        show 4 ∣ headerSize + layout.reservations.length
        omega
      stringsAligned := by omega
      reservationsAligned := by decide
      reservations := h.rebuilt_block le_rfl ⟨layout.source.take headerSize, _, by
        rw [hparts, ← List.append_assoc], hheader⟩
      structureBlock := h.rebuilt_block (Nat.le_add_right _ _)
        ⟨layout.source.take headerSize ++ layout.reservations, _, by
          rw [hparts, ← List.append_assoc, ← List.append_assoc], by
          rw [List.length_append, hheader]⟩
      strings := h.rebuilt_block (by omega)
        ⟨layout.source.take headerSize ++ layout.reservations ++ structureBlock, _, by
          rw [hparts, ← List.append_assoc, ← List.append_assoc, ← List.append_assoc], by
          rw [List.length_append, List.length_append, hheader]⟩
      map := h.map
      header_le := le_rfl
      reservations_le := le_rfl
      structure_le := le_rfl
      strings_le := hround
      total_le := by
        show roundUp (rebuiltEnd layout structureBlock strings) 4 ≤
          (rebuilt layout structureBlock strings).length
        rw [rebuilt, length_writeWords fun field hfield =>
          (rebuiltFields_fit _ _ _ _ _ _ field hfield).trans hblocks, hlen] }

theorem replaceStructure_eq (h : LaidOut layout reservationsOffset stringsOffset lastCompatible)
    (hlen : structureBlock.length = layout.structureBlock.length) :
    replaceStructure xlen layout.source layout structureBlock =
      .ok (replaced layout structureBlock) := by
  have hwords := xlen.four_gigabytes_le_words
  have htotal := h.totalSizeWord.1
  have hsecond := h.structure_le
  have hthird := h.strings_le
  have hsource := h.total_le
  have htake : (layout.source.take layout.totalSize).length = layout.totalSize :=
    List.length_take_of_le hsource
  have hadd : addUsize xlen layout.structureOffset structureBlock.length =
      .ok (layout.structureOffset + structureBlock.length) :=
    (addUsize_eq_ok_iff xlen).mpr ⟨rfl, by omega⟩
  have hroom : layout.structureOffset + structureBlock.length ≤
      (layout.source.take layout.totalSize).length := by omega
  obtain ⟨old, hold⟩ :=
    exists_slice (Nat.le_add_right layout.structureOffset structureBlock.length) hroom
  simp only [replaceStructure, indexTo, hsource, ↓reduceIte, ok_bind, hadd, hold, orFail]
  rfl

/-- What stands outside the structure block stays. -/
theorem replaced_stands (h : LaidOut layout reservationsOffset stringsOffset lastCompatible)
    (hlen : structureBlock.length = layout.structureBlock.length) {part : ByteString} {offset : Nat}
    (hpart : StandsAt layout.source offset part)
    (hdisjoint : offset + part.length ≤ layout.structureOffset ∨
      layout.structureOffset + structureBlock.length ≤ offset)
    (hle : offset + part.length ≤ layout.totalSize) :
    StandsAt (replaced layout structureBlock) offset part := by
  have hsecond := h.structure_le
  have hthird := h.strings_le
  have htake : (layout.source.take layout.totalSize).length = layout.totalSize :=
    List.length_take_of_le h.total_le
  have hroom : layout.structureOffset + structureBlock.length ≤
      (layout.source.take layout.totalSize).length := by omega
  have htaken := hpart.take_append hle []
  rw [List.append_nil] at htaken
  exact (standsAt_overwrite_iff hroom hdisjoint).mpr htaken

/-- The header of the source stays. -/
theorem replaced_keeps (h : LaidOut layout reservationsOffset stringsOffset lastCompatible)
    (hlen : structureBlock.length = layout.structureBlock.length) {offset value : Nat}
    (hoffset : offset + 4 ≤ headerSize) (hword : HasWord layout.source offset value) :
    HasWord (replaced layout structureBlock) offset value := by
  have hheader := h.header_le
  have hfirst := h.reservations_le
  have hsecond := h.structure_le
  have hthird := h.strings_le
  refine ⟨hword.1, h.replaced_stands hlen hword.2 (.inl ?_) ?_⟩
  · rw [length_beBytes]
    omega
  · rw [length_beBytes]
    omega

/-- The blob with another structure block of the same length is laid out. -/
theorem replaced_laidOut (h : LaidOut layout reservationsOffset stringsOffset lastCompatible)
    (hlen : structureBlock.length = layout.structureBlock.length) :
    LaidOut ⟨replaced layout structureBlock, layout.totalSize, layout.reservations,
        layout.structureOffset, structureBlock, layout.strings⟩
      reservationsOffset stringsOffset lastCompatible := by
  have hheader := h.header_le
  have hfirst := h.reservations_le
  have hsecond := h.structure_le
  have hthird := h.strings_le
  have hsource := h.total_le
  have htake : (layout.source.take layout.totalSize).length = layout.totalSize :=
    List.length_take_of_le hsource
  have hroom : layout.structureOffset + structureBlock.length ≤
      (layout.source.take layout.totalSize).length := by omega
  have hreservations : reservationsOffset + layout.reservations.length ≤ layout.totalSize := by
    omega
  have hword : ∀ {offset value : Nat}, offset + 4 ≤ headerSize → HasWord layout.source offset value →
      HasWord (replaced layout structureBlock) offset value := h.replaced_keeps hlen
  exact
    { magicWord := hword (by decide) h.magicWord
      totalSizeWord := hword (by decide) h.totalSizeWord
      versionWord := hword (by decide) h.versionWord
      lastCompatibleWord := hword (by decide) h.lastCompatibleWord
      structureOffsetWord := hword (by decide) h.structureOffsetWord
      stringsOffsetWord := hword (by decide) h.stringsOffsetWord
      reservationsOffsetWord := hword (by decide) h.reservationsOffsetWord
      structureSizeWord := hlen ▸ hword (by decide) h.structureSizeWord
      stringsSizeWord := hword (by decide) h.stringsSizeWord
      compatible := h.compatible
      structureAligned := h.structureAligned
      stringsAligned := h.stringsAligned
      reservationsAligned := h.reservationsAligned
      reservations := h.replaced_stands hlen h.reservations (.inl hfirst) hreservations
      structureBlock := standsAt_overwrite_self hroom
      strings := h.replaced_stands hlen h.strings (.inr (by omega)) hthird
      map := h.map
      header_le := hheader
      reservations_le := hfirst
      structure_le := by
        show layout.structureOffset + structureBlock.length ≤ stringsOffset
        omega
      strings_le := hthird
      total_le := by
        show layout.totalSize ≤ (replaced layout structureBlock).length
        rw [replaced, length_overwrite hroom, htake] }

end LaidOut

end Rebuild

end RustSbi.DeviceTree
