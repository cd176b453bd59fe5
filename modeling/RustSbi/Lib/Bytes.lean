import Mathlib.Tactic

/-!
Strings of bytes: big-endian numbers, slices and overwriting, padding, texts with
a terminating zero, and UTF-8. A slice is characterised by what stands before and
after it, so that facts about a buffer follow from how the buffer is put together.
-/

namespace Bytes

/-- A buffer, a text or a number in memory. -/
abbrev ByteString := List UInt8

instance : LawfulBEq ByteString := inferInstance

/-- The bytes of a text of ASCII characters. -/
def ascii (text : String) : ByteString := text.toList.map fun c => UInt8.ofNat c.toNat

/-! ## Big-endian numbers -/

/-- The number that bytes spell, the most significant byte first. -/
def readBE (bytes : ByteString) : Nat := bytes.foldl (fun n byte => 256 * n + byte.toNat) 0

/-- The low `width` bytes of a number, the most significant first. -/
def beBytes : Nat → Nat → ByteString
  | 0, _ => []
  | width + 1, value => beBytes width (value / 256) ++ [UInt8.ofNat value]

@[simp] theorem length_beBytes (width value : Nat) : (beBytes width value).length = width := by
  induction width generalizing value with
  | zero => rfl
  | succ width ih => simp [beBytes, ih]

theorem readBE_append_singleton (bytes : ByteString) (byte : UInt8) :
    readBE (bytes ++ [byte]) = 256 * readBE bytes + byte.toNat := by
  simp [readBE]

theorem readBE_beBytes {width value : Nat} (h : value < 256 ^ width) :
    readBE (beBytes width value) = value := by
  induction width generalizing value with
  | zero =>
    have hzero : value = 0 := by simpa using h
    rw [hzero]
    rfl
  | succ width ih =>
    have hdiv : value / 256 < 256 ^ width := by
      rw [Nat.div_lt_iff_lt_mul (by decide)]
      rwa [pow_succ] at h
    rw [beBytes, readBE_append_singleton, ih hdiv, UInt8.toNat_ofNat']
    exact Nat.div_add_mod value 256

theorem readBE_lt (bytes : ByteString) : readBE bytes < 256 ^ bytes.length := by
  induction bytes using List.reverseRecOn with
  | nil => decide
  | append_singleton bytes byte ih =>
    have hbyte := byte.toNat_lt
    rw [readBE_append_singleton, List.length_append, List.length_singleton, pow_succ]
    omega

theorem beBytes_readBE (bytes : ByteString) : beBytes bytes.length (readBE bytes) = bytes := by
  induction bytes using List.reverseRecOn with
  | nil => rfl
  | append_singleton bytes byte ih =>
    have hbyte := byte.toNat_lt
    have hdiv : (256 * readBE bytes + byte.toNat) / 256 = readBE bytes := by omega
    have hmod : UInt8.ofNat (256 * readBE bytes + byte.toNat) = byte := by
      apply UInt8.toNat_inj.mp
      rw [UInt8.toNat_ofNat']
      omega
    rw [readBE_append_singleton, List.length_append, List.length_singleton, beBytes, hdiv, ih, hmod]

theorem beBytes_add (m n value : Nat) :
    beBytes (m + n) value = beBytes m (value / 256 ^ n) ++ beBytes n value := by
  induction n generalizing value with
  | zero => simp [beBytes]
  | succ n ih =>
    rw [Nat.add_succ, beBytes, ih, beBytes, Nat.div_div_eq_div_mul, ← List.append_assoc, pow_succ',]

theorem beBytes_mod (width value : Nat) : beBytes width (value % 256 ^ width) = beBytes width value := by
  have hlt : value % 256 ^ width < 256 ^ width := Nat.mod_lt _ (by positivity)
  induction width generalizing value with
  | zero => rfl
  | succ width ih =>
    have hdiv : value % 256 ^ (width + 1) / 256 = value / 256 % 256 ^ width := by
      rw [pow_succ', Nat.mod_mul_right_div_self]
    have hbyte : UInt8.ofNat (value % 256 ^ (width + 1)) = UInt8.ofNat value := by
      apply UInt8.toNat_inj.mp
      rw [UInt8.toNat_ofNat', UInt8.toNat_ofNat', pow_succ']
      exact Nat.mod_mul_right_mod value 256 (256 ^ width)
    rw [beBytes, beBytes, hdiv, hbyte, ih _ (Nat.mod_lt _ (by positivity))]

/-! ## Slices -/

/-- `bytes.get(start..stop)`. -/
def slice (bytes : ByteString) (start stop : Nat) : Option ByteString :=
  if start ≤ stop ∧ stop ≤ bytes.length then some ((bytes.drop start).take (stop - start)) else none

/-- `bytes.get(start..)`. -/
def sliceFrom (bytes : ByteString) (start : Nat) : Option ByteString :=
  if start ≤ bytes.length then some (bytes.drop start) else none

theorem slice_eq_some_iff {bytes part : ByteString} {start stop : Nat} :
    slice bytes start stop = some part ↔
      ∃ before after, bytes = before ++ part ++ after ∧ before.length = start ∧
        start + part.length = stop := by
  unfold slice
  constructor
  · intro h
    split at h
    · next hle =>
      cases h
      refine ⟨bytes.take start, bytes.drop stop, ?_, ?_, ?_⟩
      · have hdrop : bytes.drop stop = (bytes.drop start).drop (stop - start) := by
          rw [List.drop_drop, Nat.add_sub_cancel' hle.1]
        rw [hdrop, List.append_assoc, List.take_append_drop, List.take_append_drop]
      · simp
        omega
      · simp
        omega
    · cases h
  · rintro ⟨before, after, rfl, rfl, rfl⟩
    have hle : before.length + part.length ≤ (before ++ part ++ after).length := by simp
    rw [if_pos ⟨Nat.le_add_right _ _, hle⟩, List.append_assoc, List.drop_left,
      Nat.add_sub_cancel_left, List.take_left]

theorem slice_append (before part after : ByteString) :
    slice (before ++ part ++ after) before.length (before.length + part.length) = some part :=
  slice_eq_some_iff.mpr ⟨before, after, rfl, rfl, rfl⟩

theorem exists_slice {bytes : ByteString} {start stop : Nat} (h : start ≤ stop)
    (hstop : stop ≤ bytes.length) : ∃ part, slice bytes start stop = some part := by
  rw [slice, if_pos ⟨h, hstop⟩]
  exact ⟨_, rfl⟩

theorem slice_append_left {a b : ByteString} {start stop : Nat} (h : stop ≤ a.length) :
    slice (a ++ b) start stop = slice a start stop := by
  unfold slice
  by_cases hle : start ≤ stop
  · have hboth : stop ≤ (a ++ b).length := by
      rw [List.length_append]
      omega
    rw [if_pos ⟨hle, hboth⟩, if_pos ⟨hle, h⟩, List.drop_append_of_le_length (by omega),
      List.take_append_of_le_length]
    rw [List.length_drop]
    omega
  · rw [if_neg fun hcond => hle hcond.1, if_neg fun hcond => hle hcond.1]

theorem slice_append_right {a b : ByteString} {start stop : Nat} (h : a.length ≤ start)
    (hle : start ≤ stop) :
    slice (a ++ b) start stop = slice b (start - a.length) (stop - a.length) := by
  unfold slice
  have hlen : stop - a.length - (start - a.length) = stop - start := by omega
  have hdrop : (a ++ b).drop start = b.drop (start - a.length) := by
    rw [List.drop_append, List.drop_eq_nil_of_le h, List.nil_append]
  have hiff : (start ≤ stop ∧ stop ≤ (a ++ b).length) ↔
      (start - a.length ≤ stop - a.length ∧ stop - a.length ≤ b.length) := by
    rw [List.length_append]
    omega
  simp only [hiff, hlen, hdrop]

/-- The part stands at the offset of the buffer. -/
def StandsAt (bytes : ByteString) (offset : Nat) (part : ByteString) : Prop :=
  ∃ before after, bytes = before ++ part ++ after ∧ before.length = offset

theorem slice_eq_some_iff_standsAt {bytes part : ByteString} {start stop : Nat} :
    slice bytes start stop = some part ↔ StandsAt bytes start part ∧ start + part.length = stop := by
  rw [slice_eq_some_iff]
  constructor
  · rintro ⟨before, after, hbytes, hstart, hstop⟩
    exact ⟨⟨before, after, hbytes, hstart⟩, hstop⟩
  · rintro ⟨⟨before, after, hbytes, hstart⟩, hstop⟩
    exact ⟨before, after, hbytes, hstart, hstop⟩

theorem StandsAt.le_length {bytes part : ByteString} {offset : Nat} (h : StandsAt bytes offset part) :
    offset + part.length ≤ bytes.length := by
  obtain ⟨before, after, rfl, rfl⟩ := h
  simp

theorem StandsAt.of_le {bytes : ByteString} {offset n : Nat} (h : offset + n ≤ bytes.length) :
    StandsAt bytes offset ((bytes.drop offset).take n) := by
  obtain ⟨part, hpart⟩ := exists_slice (Nat.le_add_right offset n) h
  have hslice := hpart
  rw [slice, if_pos ⟨Nat.le_add_right offset n, h⟩, Nat.add_sub_cancel_left] at hslice
  obtain rfl := Option.some.inj hslice
  exact (slice_eq_some_iff_standsAt.mp hpart).1

theorem standsAt_append_iff {bytes a b : ByteString} {offset : Nat} :
    StandsAt bytes offset (a ++ b) ↔ StandsAt bytes offset a ∧ StandsAt bytes (offset + a.length) b := by
  constructor
  · rintro ⟨before, after, rfl, rfl⟩
    refine ⟨⟨before, b ++ after, by simp, rfl⟩, before ++ a, after, by simp, by simp⟩
  · rintro ⟨⟨before, after, rfl, rfl⟩, before', after', hbytes, hlen⟩
    have hbefore : before' = before ++ a := by
      have htake := congrArg (List.take (before.length + a.length)) hbytes
      rw [List.take_left' (by simp), List.append_assoc before', List.take_left' hlen] at htake
      exact htake.symm
    subst hbefore
    exact ⟨before, after', by simpa using hbytes, rfl⟩

/-- Two parts of one length at one offset are the same. -/
theorem StandsAt.unique {bytes a b : ByteString} {offset : Nat} (ha : StandsAt bytes offset a)
    (hb : StandsAt bytes offset b) (hlen : a.length = b.length) : a = b := by
  have ha' := slice_eq_some_iff_standsAt.mpr ⟨ha, rfl⟩
  have hb' := slice_eq_some_iff_standsAt.mpr ⟨hb, rfl⟩
  rw [hlen, hb'] at ha'
  exact (Option.some.inj ha').symm

/-- A part within the first bytes stands in them, whatever follows. -/
theorem StandsAt.take_append {bytes part : ByteString} {offset n : Nat}
    (h : StandsAt bytes offset part) (hle : offset + part.length ≤ n) (rest : ByteString) :
    StandsAt (bytes.take n ++ rest) offset part := by
  obtain ⟨before, after, rfl, rfl⟩ := h
  have htake : (before ++ part ++ after).take n =
      before ++ part ++ after.take (n - (before ++ part).length) := by
    rw [List.take_append, List.take_of_length_le]
    rwa [List.length_append]
  exact ⟨before, after.take (n - (before ++ part).length) ++ rest, by rw [htake, List.append_assoc], rfl⟩

/-- `bytes[offset..offset + data.len()].copy_from_slice(data)`, within the buffer. -/
def overwrite (bytes : ByteString) (offset : Nat) (data : ByteString) : ByteString :=
  bytes.take offset ++ data ++ bytes.drop (offset + data.length)

theorem overwrite_append (before old data after : ByteString) (h : data.length = old.length) :
    overwrite (before ++ old ++ after) before.length data = before ++ data ++ after := by
  rw [overwrite, List.append_assoc before old, List.take_left, h, ← List.drop_drop, List.drop_left,
    List.drop_left]

theorem length_overwrite {bytes data : ByteString} {offset : Nat}
    (h : offset + data.length ≤ bytes.length) : (overwrite bytes offset data).length = bytes.length := by
  simp [overwrite]
  omega

/-- Of two writes of one length at one place, the second stays. -/
theorem overwrite_overwrite {bytes a b : ByteString} {offset : Nat} (hlen : a.length = b.length)
    (h : offset + a.length ≤ bytes.length) :
    overwrite (overwrite bytes offset a) offset b = overwrite bytes offset b := by
  have htake : (bytes.take offset).length = offset := List.length_take_of_le (by omega)
  have hfirst : overwrite bytes offset a =
      bytes.take offset ++ a ++ bytes.drop (offset + a.length) := rfl
  have hsecond := overwrite_append (bytes.take offset) a b (bytes.drop (offset + a.length)) hlen.symm
  rw [htake, ← hfirst] at hsecond
  rw [hsecond, hlen]
  rfl

theorem slice_overwrite_self {bytes data : ByteString} {offset : Nat}
    (h : offset + data.length ≤ bytes.length) :
    slice (overwrite bytes offset data) offset (offset + data.length) = some data := by
  have hlen : (bytes.take offset).length = offset := by
    rw [List.length_take]
    omega
  exact slice_eq_some_iff.mpr ⟨bytes.take offset, _, rfl, hlen, rfl⟩

/-- A slice that the overwritten part does not meet is kept. -/
theorem slice_overwrite_of_disjoint {bytes data : ByteString} {offset start stop : Nat}
    (h : offset + data.length ≤ bytes.length) (hle : start ≤ stop)
    (hdisjoint : stop ≤ offset ∨ offset + data.length ≤ start) :
    slice (overwrite bytes offset data) start stop = slice bytes start stop := by
  obtain ⟨old, hold⟩ := exists_slice (Nat.le_add_right offset data.length) h
  obtain ⟨before, after, rfl, rfl, hlen⟩ := slice_eq_some_iff.mp hold
  have hsame : data.length = old.length := by omega
  rw [overwrite_append before old data after hsame]
  rcases hdisjoint with hstop | hstart
  · rw [List.append_assoc, List.append_assoc, slice_append_left hstop, slice_append_left hstop]
  · have hdata : (before ++ data).length = before.length + data.length := List.length_append
    have hold : (before ++ old).length = before.length + data.length := by
      rw [List.length_append, hsame]
    rw [slice_append_right (by omega) hle, slice_append_right (by omega) hle, hdata, hold]

theorem standsAt_overwrite_self {bytes data : ByteString} {offset : Nat}
    (h : offset + data.length ≤ bytes.length) : StandsAt (overwrite bytes offset data) offset data :=
  (slice_eq_some_iff_standsAt.mp (slice_overwrite_self h)).1

/-- A part that the overwritten one does not meet stays. -/
theorem standsAt_overwrite_iff {bytes data part : ByteString} {offset start : Nat}
    (h : offset + data.length ≤ bytes.length)
    (hdisjoint : start + part.length ≤ offset ∨ offset + data.length ≤ start) :
    StandsAt (overwrite bytes offset data) start part ↔ StandsAt bytes start part := by
  have hslice := slice_overwrite_of_disjoint h (Nat.le_add_right start part.length) hdisjoint
  constructor
  · intro hstands
    exact (slice_eq_some_iff_standsAt.mp
      (hslice ▸ slice_eq_some_iff_standsAt.mpr ⟨hstands, rfl⟩)).1
  · intro hstands
    exact (slice_eq_some_iff_standsAt.mp
      (hslice.trans (slice_eq_some_iff_standsAt.mpr ⟨hstands, rfl⟩))).1

/-! ## Padding -/

/-- The least multiple of `alignment` from `n` on. -/
def roundUp (n alignment : Nat) : Nat := (n + (alignment - 1)) / alignment * alignment

/-- `pad_to`. -/
def padTo (bytes : ByteString) (alignment : Nat) : ByteString :=
  bytes ++ List.replicate (roundUp bytes.length alignment - bytes.length) 0

theorem le_roundUp {n alignment : Nat} (h : 0 < alignment) : n ≤ roundUp n alignment := by
  have hdiv := Nat.div_add_mod (n + (alignment - 1)) alignment
  have hmod := Nat.mod_lt (n + (alignment - 1)) h
  rw [roundUp, Nat.mul_comm]
  omega

theorem roundUp_of_dvd {n alignment : Nat} (h : 0 < alignment) (hn : alignment ∣ n) :
    roundUp n alignment = n := by
  obtain ⟨k, rfl⟩ := hn
  rw [roundUp, Nat.mul_add_div h, Nat.div_eq_of_lt (by omega), Nat.add_zero, Nat.mul_comm]

theorem dvd_roundUp (n alignment : Nat) : alignment ∣ roundUp n alignment :=
  Dvd.intro_left _ rfl

theorem roundUp_add {a alignment : Nat} (h : 0 < alignment) (ha : alignment ∣ a) (n : Nat) :
    roundUp (a + n) alignment = a + roundUp n alignment := by
  obtain ⟨k, rfl⟩ := ha
  rw [roundUp, roundUp, Nat.add_assoc, Nat.mul_add_div h, Nat.add_mul, Nat.mul_comm k]

/-- Padding after whole words is padding of the rest. -/
theorem padTo_append {a : ByteString} {alignment : Nat} (h : 0 < alignment)
    (ha : alignment ∣ a.length) (b : ByteString) :
    padTo (a ++ b) alignment = a ++ padTo b alignment := by
  rw [padTo, padTo, List.length_append, roundUp_add h ha, Nat.add_sub_add_left, List.append_assoc]

theorem length_padTo {bytes : ByteString} {alignment : Nat} (h : 0 < alignment) :
    (padTo bytes alignment).length = roundUp bytes.length alignment := by
  have hle := @le_roundUp bytes.length alignment h
  rw [padTo, List.length_append, List.length_replicate]
  omega

theorem padTo_of_dvd {bytes : ByteString} {alignment : Nat} (h : 0 < alignment)
    (hdvd : alignment ∣ bytes.length) : padTo bytes alignment = bytes := by
  rw [padTo, roundUp_of_dvd h hdvd, Nat.sub_self, List.replicate_zero, List.append_nil]

/-- The value with some padding up to a multiple of four. -/
def Padded (value raw : ByteString) : Prop :=
  ∃ pad, raw = value ++ pad ∧ raw.length = roundUp value.length 4

theorem padded_padTo (value : ByteString) : Padded value (padTo value 4) := by
  refine ⟨_, rfl, ?_⟩
  have hle := @le_roundUp value.length 4 (by decide)
  rw [padTo, List.length_append, List.length_replicate]
  omega

/-! ## Texts -/

/-- The text of a padded string with a terminating zero. -/
def CString (text raw : ByteString) : Prop :=
  Padded (text ++ [0]) raw ∧ 0 ∉ text


/-- A byte that continues a character. -/
def isTail (byte : UInt8) : Bool := 0x80 ≤ byte && byte ≤ 0xbf

/-- The well-formed byte sequences of Unicode, without surrogates and overlong forms. -/
def isUtf8 : ByteString → Bool
  | [] => true
  | a :: rest =>
    if a < 0x80 then isUtf8 rest
    else if 0xc2 ≤ a && a ≤ 0xdf then
      match rest with
      | b :: rest => isTail b && isUtf8 rest
      | _ => false
    else if 0xe0 ≤ a && a ≤ 0xef then
      match rest with
      | b :: c :: rest =>
        isTail b && (a != 0xe0 || 0xa0 ≤ b) && (a != 0xed || b ≤ 0x9f) && isTail c && isUtf8 rest
      | _ => false
    else if 0xf0 ≤ a && a ≤ 0xf4 then
      match rest with
      | b :: c :: d :: rest =>
        isTail b && (a != 0xf0 || 0x90 ≤ b) && (a != 0xf4 || b ≤ 0x8f) && isTail c && isTail d &&
          isUtf8 rest
      | _ => false
    else false

theorem isUtf8_of_ascii {bytes : ByteString} (h : ∀ byte ∈ bytes, byte < 0x80) :
    isUtf8 bytes = true := by
  induction bytes with
  | nil => rfl
  | cons a rest ih =>
    unfold isUtf8
    rw [if_pos (h a List.mem_cons_self)]
    exact ih fun byte hbyte => h byte (List.mem_cons_of_mem a hbyte)

/-- A text of ASCII characters without NUL. -/
def IsText (bytes : ByteString) : Prop := ∀ byte ∈ bytes, byte ≠ 0 ∧ byte < 0x80

instance (bytes : ByteString) : Decidable (IsText bytes) :=
  inferInstanceAs (Decidable (∀ _ ∈ _, _))

theorem IsText.not_mem {bytes : ByteString} (h : IsText bytes) : 0 ∉ bytes :=
  fun hmem => (h 0 hmem).1 rfl

theorem IsText.isUtf8 {bytes : ByteString} (h : IsText bytes) : isUtf8 bytes = true :=
  isUtf8_of_ascii fun byte hmem => (h byte hmem).2

/-- The position of the first zero byte ends the text before it. -/
theorem position_zero_iff {bytes : ByteString} {n : Nat} :
    bytes.findIdx? (· == 0) = some n ↔
      ∃ text rest, bytes = text ++ 0 :: rest ∧ text.length = n ∧ 0 ∉ text := by
  induction bytes generalizing n with
  | nil => simp
  | cons byte bytes ih =>
    rw [List.findIdx?_cons]
    by_cases hzero : byte = 0
    · subst hzero
      constructor
      · rintro ⟨⟩
        exact ⟨[], bytes, rfl, rfl, List.not_mem_nil⟩
      · rintro ⟨text, rest, hbytes, rfl, htext⟩
        cases text with
        | nil => rfl
        | cons head text =>
          obtain ⟨rfl, -⟩ := List.cons.inj hbytes
          exact (htext List.mem_cons_self).elim
    · rw [if_neg (by simpa using hzero), Option.map_eq_some_iff]
      constructor
      · rintro ⟨m, hm, rfl⟩
        obtain ⟨text, rest, rfl, rfl, htext⟩ := ih.mp hm
        refine ⟨byte :: text, rest, rfl, rfl, ?_⟩
        rw [List.mem_cons, not_or]
        exact ⟨fun h => hzero h.symm, htext⟩
      · rintro ⟨text, rest, hbytes, rfl, htext⟩
        cases text with
        | nil =>
          obtain ⟨rfl, -⟩ := List.cons.inj hbytes
          exact (hzero rfl).elim
        | cons head text =>
          obtain ⟨rfl, rfl⟩ := List.cons.inj hbytes
          exact ⟨text.length,
            ih.mpr ⟨text, rest, rfl, rfl, fun h => htext (List.mem_cons_of_mem _ h)⟩, rfl⟩

end Bytes
