import RustSbi.Sbi.HartMask

/-!
The hart mask of `sbi-spec` as a finite set: membership, insertion, removal and
iteration over one base-offset encoding, with a base that stands for every hart.
The iterator adds a bit position to the base without a check and stops before the
last hart id of the unbounded range, so the views agree exactly for the masks that
name each of their harts by a word and are not the mask of every hart.
-/

namespace RustSbi.Ipi

open Bits Checked

variable {xlen : Xlen}

/-! ## Membership and mutation -/

/-- `MaskError`. -/
inductive MaskError
  | ignored
  | invalidBit
  deriving DecidableEq, Repr

/-- `HartMask::from_mask_base`. -/
def HartMask.fromMaskBase (hartMask hartMaskBase : BitVec xlen.bits) : HartMask xlen :=
  ⟨hartMask, hartMaskBase.toNat⟩

/-- `bit - base` and `1 << (bit - base)`, each with its panic. -/
def bitAt (xlen : Xlen) (base bit : Nat) : Except Panic (BitVec xlen.bits) :=
  if bit < base then .error .subtractUnderflow
  else if xlen.bits ≤ bit - base then .error .shiftOverflow
  else .ok (1#(xlen.bits) <<< (bit - base))

/-- `valid_bit`. -/
def validBit (xlen : Xlen) (base bit : Nat) : Bool :=
  if bit < base then false
  else if xlen.bits ≤ bit - base then false
  else true

namespace HartMask

/-- `HartMask::has_bit`. -/
def hasBit (mask : HartMask xlen) (hartId : Nat) : Except Panic Bool :=
  if mask.hartMaskBase = xlen.usizeMax then .ok true
  else if !validBit xlen mask.hartMaskBase hartId then .ok false
  else do
    let bit ← bitAt xlen mask.hartMaskBase hartId
    return mask.hartMask &&& bit != 0#(xlen.bits)

/-- `HartMask::insert`, with the mask after it. -/
def insert (mask : HartMask xlen) (hartId : Nat) :
    Except Panic (Except MaskError Unit × HartMask xlen) :=
  if mask.hartMaskBase = xlen.usizeMax then .ok (.ok (), mask)
  else if validBit xlen mask.hartMaskBase hartId then do
    let bit ← bitAt xlen mask.hartMaskBase hartId
    return (.ok (), { mask with hartMask := mask.hartMask ||| bit })
  else .ok (.error .invalidBit, mask)

/-- `HartMask::remove`, with the mask after it. -/
def remove (mask : HartMask xlen) (hartId : Nat) :
    Except Panic (Except MaskError Unit × HartMask xlen) :=
  if mask.hartMaskBase = xlen.usizeMax then .ok (.error .ignored, mask)
  else if validBit xlen mask.hartMaskBase hartId then do
    let bit ← bitAt xlen mask.hartMaskBase hartId
    return (.ok (), { mask with hartMask := mask.hartMask &&& ~~~bit })
  else .ok (.error .invalidBit, mask)

end HartMask

/-- A call that changes a mask. -/
inductive MaskCall (xlen : Xlen)
  | insert (hartId : BitVec xlen.bits)
  | remove (hartId : BitVec xlen.bits)

/-- One call. -/
def HartMask.call (mask : HartMask xlen) :
    MaskCall xlen → Except Panic (Except MaskError Unit × HartMask xlen)
  | .insert hartId => mask.insert hartId.toNat
  | .remove hartId => mask.remove hartId.toNat

/-- The mask after some calls, whatever each of them returns. -/
def HartMask.perform (mask : HartMask xlen) : List (MaskCall xlen) → Except Panic (HartMask xlen)
  | [] => .ok mask
  | call :: rest => do
    let (_, mask) ← mask.call call
    mask.perform rest

/-! ## Sets of harts -/

/-- The three views of a mask agree on one finite set, and no computation of
theirs overflows. -/
structure HartMask.BehavesAsSet (mask : HartMask xlen) : Prop where
  membership : ∀ hartId < xlen.words, ∃ member, mask.hasBit hartId = .ok member ∧
    (member = true ↔ mask.Denotes hartId)
  iteration : ∃ ids, mask.iter.toList = .ok ids ∧ ids.Pairwise (· < ·) ∧
    ∀ hartId, hartId ∈ ids ↔ hartId < xlen.words ∧ mask.hasBit hartId = .ok true
  insertion : ∀ hartId < xlen.words, ∃ result mask', mask.insert hartId = .ok (result, mask') ∧
    (result = .ok () → ∀ other < xlen.words,
      mask'.Denotes other ↔ (mask.Denotes other ∨ other = hartId)) ∧
    ∀ error, result = .error error → mask' = mask
  removal : ∀ hartId < xlen.words, ∃ result mask', mask.remove hartId = .ok (result, mask') ∧
    (result = .ok () → ∀ other < xlen.words,
      mask'.Denotes other ↔ (mask.Denotes other ∧ other ≠ hartId)) ∧
    ∀ error, result = .error error → mask' = mask

/-- Every hart of the mask is a word, and the mask is not that of every hart. -/
structure HartMask.Fits (mask : HartMask xlen) : Prop where
  ordinary : mask.hartMaskBase ≠ xlen.usizeMax
  words : ∀ i ∈ setBits mask.hartMask, i + mask.hartMaskBase < xlen.words

/-! ## One mask -/

section Mask

variable {mask : HartMask xlen}

theorem validBit_eq_true_iff {base bit : Nat} :
    validBit xlen base bit = true ↔ ∃ i < xlen.bits, bit = base + i := by
  unfold validBit
  constructor
  · intro h
    split at h
    · cases h
    · split at h
      · cases h
      · exact ⟨bit - base, by omega, by omega⟩
  · rintro ⟨i, hi, rfl⟩
    rw [if_neg (by omega), if_neg (by omega)]

theorem bitAt_add {base i : Nat} (hi : i < xlen.bits) :
    bitAt xlen base (base + i) = .ok (1#(xlen.bits) <<< i) := by
  rw [bitAt, if_neg (by omega), if_neg (by omega), Nat.add_sub_cancel_left]

theorem hasBit_ordinary (hbase : mask.hartMaskBase ≠ xlen.usizeMax) (hartId : Nat) :
    mask.hasBit hartId = .ok
      (decide (mask.hartMaskBase ≤ hartId) && mask.hartMask.getLsbD (hartId - mask.hartMaskBase)) := by
  rw [HartMask.hasBit, if_neg hbase]
  cases hvalid : validBit xlen mask.hartMaskBase hartId with
  | false =>
    have hout : ¬ ∃ i < xlen.bits, hartId = mask.hartMaskBase + i := by
      rw [← validBit_eq_true_iff, hvalid]
      exact Bool.false_ne_true
    rcases Nat.lt_or_ge hartId mask.hartMaskBase with hlow | hge
    · simp [Nat.not_le.mpr hlow]
    · have hhigh : xlen.bits ≤ hartId - mask.hartMaskBase := by
        by_contra hlt
        exact hout ⟨hartId - mask.hartMaskBase, by omega, by omega⟩
      simp [BitVec.getLsbD_of_ge _ _ hhigh]
  | true =>
    obtain ⟨i, hi, rfl⟩ := validBit_eq_true_iff.mp hvalid
    rw [bitAt_add hi]
    have htest := and_oneShift_ne_zero_iff (x := mask.hartMask) hi
    cases hbit : mask.hartMask.getLsbD i with
    | false => simp_all [bind, Except.bind, pure, Except.pure]
    | true => simp_all [bind, Except.bind, pure, Except.pure]

theorem denotes_ordinary (hbase : mask.hartMaskBase ≠ xlen.usizeMax) {hartId : Nat} :
    mask.Denotes hartId ↔ mask.hasBit hartId = .ok true := by
  rw [hasBit_ordinary hbase]
  constructor
  · rintro (hall | ⟨i, hbit, rfl⟩)
    · exact absurd hall hbase
    · simp [hbit]
  · intro h
    simp only [Except.ok.injEq, Bool.and_eq_true, decide_eq_true_eq] at h
    exact .inr ⟨hartId - mask.hartMaskBase, h.2, by omega⟩

/-- The test answers membership for every mask and every hart. -/
theorem hasBit_eq (mask : HartMask xlen) (hartId : Nat) :
    ∃ member, mask.hasBit hartId = .ok member ∧ (member = true ↔ mask.Denotes hartId) := by
  by_cases hbase : mask.hartMaskBase = xlen.usizeMax
  · exact ⟨true, by rw [HartMask.hasBit, if_pos hbase], by simp [HartMask.Denotes, hbase]⟩
  · refine ⟨_, hasBit_ordinary hbase hartId, ?_⟩
    rw [denotes_ordinary hbase, hasBit_ordinary hbase, Except.ok.injEq]

theorem denotes_window {hartMask : BitVec xlen.bits} {base i : Nat}
    (hbase : base ≠ xlen.usizeMax) :
    HartMask.Denotes ⟨hartMask, base⟩ (base + i) ↔ hartMask.getLsbD i = true := by
  rw [denotes_ordinary hbase, hasBit_ordinary hbase]
  simp

theorem window_of_denotes {hartMask : BitVec xlen.bits} {base hartId : Nat}
    (hbase : base ≠ xlen.usizeMax) (h : HartMask.Denotes ⟨hartMask, base⟩ hartId) :
    ∃ i < xlen.bits, hartId = base + i := by
  rcases h with hall | ⟨i, hbit, rfl⟩
  · exact absurd hall hbase
  · exact ⟨i, BitVec.lt_of_getLsbD hbit, rfl⟩

/-- The calls that change a mask: they return an error and change nothing, do
nothing to the mask of every hart, or set or clear one bit of the window. -/
theorem insert_cases (mask : HartMask xlen) (hartId : Nat) :
    (∃ error, mask.insert hartId = .ok (.error error, mask)) ∨
    (mask.hartMaskBase = xlen.usizeMax ∧ mask.insert hartId = .ok (.ok (), mask)) ∨
    ∃ i < xlen.bits, mask.hartMaskBase ≠ xlen.usizeMax ∧ hartId = mask.hartMaskBase + i ∧
      mask.insert hartId =
        .ok (.ok (), { mask with hartMask := mask.hartMask ||| 1#(xlen.bits) <<< i }) := by
  unfold HartMask.insert
  split
  · rename_i hbase
    exact .inr (.inl ⟨hbase, rfl⟩)
  · rename_i hbase
    split
    · rename_i hvalid
      obtain ⟨i, hi, rfl⟩ := validBit_eq_true_iff.mp hvalid
      exact .inr (.inr ⟨i, hi, hbase, rfl, by rw [bitAt_add hi]; rfl⟩)
    · exact .inl ⟨_, rfl⟩

theorem remove_cases (mask : HartMask xlen) (hartId : Nat) :
    (∃ error, mask.remove hartId = .ok (.error error, mask)) ∨
    ∃ i < xlen.bits, mask.hartMaskBase ≠ xlen.usizeMax ∧ hartId = mask.hartMaskBase + i ∧
      mask.remove hartId =
        .ok (.ok (), { mask with hartMask := mask.hartMask &&& ~~~(1#(xlen.bits) <<< i) }) := by
  unfold HartMask.remove
  split
  · exact .inl ⟨_, rfl⟩
  · rename_i hbase
    split
    · rename_i hvalid
      obtain ⟨i, hi, rfl⟩ := validBit_eq_true_iff.mp hvalid
      exact .inr ⟨i, hi, hbase, rfl, by rw [bitAt_add hi]; rfl⟩
    · exact .inl ⟨_, rfl⟩

/-- An insertion adds one hart or leaves the mask as it is. -/
theorem insert_spec (mask : HartMask xlen) (hartId : Nat) :
    ∃ result mask', mask.insert hartId = .ok (result, mask') ∧
      (result = .ok () → ∀ other, mask'.Denotes other ↔ (mask.Denotes other ∨ other = hartId)) ∧
      ∀ error, result = .error error → mask' = mask := by
  obtain ⟨error, h⟩ | ⟨hbase, h⟩ | ⟨i, hi, hbase, rfl, h⟩ := insert_cases mask hartId
  · exact ⟨_, _, h, fun hok => (by cases hok), fun _ _ => rfl⟩
  · refine ⟨_, _, h, fun _ other => ?_, fun _ _ => rfl⟩
    simp [HartMask.Denotes, hbase]
  · refine ⟨_, _, h, fun _ other => ?_, fun _ herror => (by cases herror)⟩
    constructor
    · intro hother
      obtain ⟨j, hj, rfl⟩ := window_of_denotes hbase hother
      rw [denotes_window hbase, getLsbD_setBit _ hj] at hother
      rw [denotes_window hbase]
      simpa using hother
    · intro hother
      have hwindow : ∃ j < xlen.bits, other = mask.hartMaskBase + j := by
        rcases hother with hother | rfl
        · exact window_of_denotes hbase hother
        · exact ⟨i, hi, rfl⟩
      obtain ⟨j, hj, rfl⟩ := hwindow
      rw [denotes_window hbase] at hother
      rw [denotes_window hbase, getLsbD_setBit _ hj]
      simpa using hother

/-- A removal takes one hart away or leaves the mask as it is. -/
theorem remove_spec (mask : HartMask xlen) (hartId : Nat) :
    ∃ result mask', mask.remove hartId = .ok (result, mask') ∧
      (result = .ok () → ∀ other, mask'.Denotes other ↔ (mask.Denotes other ∧ other ≠ hartId)) ∧
      ∀ error, result = .error error → mask' = mask := by
  obtain ⟨error, h⟩ | ⟨i, hi, hbase, rfl, h⟩ := remove_cases mask hartId
  · exact ⟨_, _, h, fun hok => (by cases hok), fun _ _ => rfl⟩
  · refine ⟨_, _, h, fun _ other => ?_, fun _ herror => (by cases herror)⟩
    constructor
    · intro hother
      obtain ⟨j, hj, rfl⟩ := window_of_denotes hbase hother
      rw [denotes_window hbase, getLsbD_clearBit] at hother
      rw [denotes_window hbase]
      simpa using hother
    · intro hother
      obtain ⟨j, hj, rfl⟩ := window_of_denotes hbase hother.1
      rw [denotes_window hbase] at hother
      rw [denotes_window hbase, getLsbD_clearBit]
      simpa using hother

end Mask

/-! ## Iteration -/

namespace HartIds

theorem collect_range (fuel start stop : Nat) :
    (range start stop : HartIds xlen).collect fuel =
      .ok (List.range' start (min fuel (stop - start))) := by
  induction fuel generalizing start with
  | zero => simp [collect]
  | succ fuel ih =>
    by_cases hlt : start < stop
    · have hmin : min (fuel + 1) (stop - start) = min fuel (stop - (start + 1)) + 1 := by omega
      simp only [collect, next, if_pos hlt, ih, hmin, List.range'_succ]
      rfl
    · have hmin : min (fuel + 1) (stop - start) = 0 := by omega
      simp [collect, next, hlt, hmin]

/-- A set bit past the last word stops the walk when the loop reaches it. -/
theorem collect_overflows (fuel : Nat) (mask : BitVec xlen.bits) (base : Nat)
    (hfuel : countOnes mask ≤ fuel) {i : Nat} (hi : i ∈ setBits mask)
    (hover : xlen.words ≤ i + base) :
    (maskBase mask base).collect fuel = .error .addOverflow := by
  induction fuel generalizing mask with
  | zero =>
    have hnil : setBits mask = [] := List.length_eq_zero_iff.mp (Nat.le_zero.mp hfuel)
    rw [hnil] at hi
    cases hi
  | succ fuel ih =>
    have hmask : mask ≠ 0#(xlen.bits) := by
      rintro rfl
      rw [setBits_zero] at hi
      cases hi
    have hcons := setBits_eq_ctz_cons hmask
    rw [hcons] at hi
    by_cases hlow : mask.ctz.toNat + base < xlen.words
    · have hrest := ih (mask &&& ~~~(1#(xlen.bits) <<< mask.ctz.toNat))
        (by
          rw [countOnes, hcons, List.length_cons] at hfuel
          exact Nat.le_of_succ_le_succ hfuel)
        (by
          rcases List.mem_cons.mp hi with rfl | hi
          · omega
          · exact hi)
      simp only [collect, next, hmask, hlow, if_false, if_true, hrest]
      rfl
    · simp only [collect, next, hmask, hlow, if_false]

theorem toList_overflows (mask : BitVec xlen.bits) (base : Nat) {i : Nat} (hi : i ∈ setBits mask)
    (hover : xlen.words ≤ i + base) : (maskBase mask base).toList = .error .addOverflow :=
  collect_overflows _ mask base le_rfl hi hover

end HartIds

/-! ## The condition -/

section Condition

variable {mask : HartMask xlen}

/-- The iteration over every hart stops before the last hart id. -/
theorem last_not_mem_iter (hall : mask.hartMaskBase = xlen.usizeMax) {ids : List Nat}
    (hids : mask.iter.toList = .ok ids) : xlen.usizeMax ∉ ids := by
  have hrange : mask.iter.toList = .ok (List.range xlen.usizeMax) := by
    rw [HartMask.iter, if_pos hall, HartIds.toList, HartIds.collect_range, List.range_eq_range']
    simp [HartIds.sizeHint]
  rw [hrange] at hids
  cases hids
  exact List.not_mem_range_self

theorem iter_ordinary (hbase : mask.hartMaskBase ≠ xlen.usizeMax) :
    mask.iter = .maskBase mask.hartMask mask.hartMaskBase := by
  rw [HartMask.iter, if_neg hbase]

theorem HartMask.Fits.behavesAsSet (hfits : mask.Fits) : mask.BehavesAsSet where
  membership hartId _ := hasBit_eq mask hartId
  iteration := by
    refine ⟨(setBits mask.hartMask).map (· + mask.hartMaskBase), ?_, ?_, ?_⟩
    · rw [iter_ordinary hfits.ordinary]
      exact HartIds.toList_maskBase _ _ hfits.words
    · apply List.Pairwise.map
      · intro a b hab
        exact Nat.add_lt_add_right hab _
      · exact List.pairwise_lt_range.filter _
    · intro hartId
      rw [← denotes_ordinary hfits.ordinary, List.mem_map]
      constructor
      · rintro ⟨i, hi, rfl⟩
        exact ⟨hfits.words i hi, .inr ⟨i, mem_setBits_iff.mp hi, Nat.add_comm _ _⟩⟩
      · rintro ⟨-, hall | ⟨i, hbit, rfl⟩⟩
        · exact absurd hall hfits.ordinary
        · exact ⟨i, mem_setBits_iff.mpr hbit, Nat.add_comm _ _⟩
  insertion hartId _ := by
    obtain ⟨result, mask', h, hok, herror⟩ := insert_spec mask hartId
    exact ⟨result, mask', h, fun hresult other _ => hok hresult other, herror⟩
  removal hartId _ := by
    obtain ⟨result, mask', h, hok, herror⟩ := remove_spec mask hartId
    exact ⟨result, mask', h, fun hresult other _ => hok hresult other, herror⟩

theorem HartMask.BehavesAsSet.fits (h : mask.BehavesAsSet) : mask.Fits := by
  obtain ⟨ids, hids, -, hmem⟩ := h.iteration
  have hbase : mask.hartMaskBase ≠ xlen.usizeMax := by
    intro hall
    have hlast : xlen.usizeMax < xlen.words := Nat.sub_lt xlen.words_pos Nat.one_pos
    have hmember : mask.hasBit xlen.usizeMax = .ok true := by rw [HartMask.hasBit, if_pos hall]
    exact last_not_mem_iter hall hids ((hmem _).mpr ⟨hlast, hmember⟩)
  refine ⟨hbase, ?_⟩
  intro i hi
  by_contra hover
  rw [iter_ordinary hbase, HartIds.toList_overflows _ _ hi (Nat.le_of_not_lt hover)] at hids
  cases hids

theorem behavesAsSet_iff_fits : mask.BehavesAsSet ↔ mask.Fits :=
  ⟨fun h => h.fits, fun h => h.behavesAsSet⟩

/-- A call answers, keeps the base, and neither sets nor clears a bit whose hart
is no word. -/
theorem call_fits (mask : HartMask xlen) (call : MaskCall xlen) :
    ∃ result mask', mask.call call = .ok (result, mask') ∧ (mask'.Fits ↔ mask.Fits) := by
  have hsame : ∀ mask' : HartMask xlen, mask'.hartMaskBase = mask.hartMaskBase →
      (∀ j, xlen.words ≤ j + mask.hartMaskBase →
        (j ∈ setBits mask'.hartMask ↔ j ∈ setBits mask.hartMask)) →
      (mask'.Fits ↔ mask.Fits) := by
    intro mask' hbase hbits
    constructor
    · rintro ⟨hordinary, hwords⟩
      rw [hbase] at hordinary hwords
      refine ⟨hordinary, fun j hj => ?_⟩
      by_contra hover
      exact hover (hwords j ((hbits j (Nat.le_of_not_lt hover)).mpr hj))
    · rintro ⟨hordinary, hwords⟩
      refine ⟨hbase ▸ hordinary, fun j hj => ?_⟩
      rw [hbase]
      by_contra hover
      exact hover (hwords j ((hbits j (Nat.le_of_not_lt hover)).mp hj))
  cases call with
  | insert hartId =>
    obtain ⟨error, h⟩ | ⟨-, h⟩ | ⟨i, hi, -, hid, h⟩ := insert_cases mask hartId.toNat
    · exact ⟨_, _, h, Iff.rfl⟩
    · exact ⟨_, _, h, Iff.rfl⟩
    · refine ⟨_, _, h, hsame _ rfl fun j hover => ?_⟩
      have hword : hartId.toNat < xlen.words := hartId.isLt
      have hne : j ≠ i := by omega
      simp only [mem_setBits_iff]
      rcases Nat.lt_or_ge j xlen.bits with hj | hj
      · rw [getLsbD_setBit _ hj]
        simp [hne]
      · simp [BitVec.getLsbD_of_ge _ _ hj]
  | remove hartId =>
    obtain ⟨error, h⟩ | ⟨i, hi, -, hid, h⟩ := remove_cases mask hartId.toNat
    · exact ⟨_, _, h, Iff.rfl⟩
    · refine ⟨_, _, h, hsame _ rfl fun j hover => ?_⟩
      have hword : hartId.toNat < xlen.words := hartId.isLt
      have hne : j ≠ i := by omega
      simp only [mem_setBits_iff]
      rw [getLsbD_clearBit]
      simp [hne]

theorem perform_fits (mask : HartMask xlen) (calls : List (MaskCall xlen)) :
    ∃ mask', mask.perform calls = .ok mask' ∧ (mask'.Fits ↔ mask.Fits) := by
  induction calls generalizing mask with
  | nil => exact ⟨mask, rfl, Iff.rfl⟩
  | cons call rest ih =>
    obtain ⟨result, mask₁, hcall, hfits₁⟩ := call_fits mask call
    obtain ⟨mask₂, hrest, hfits₂⟩ := ih mask₁
    refine ⟨mask₂, ?_, hfits₂.trans hfits₁⟩
    rw [HartMask.perform, hcall]
    exact hrest

end Condition

/-- After any calls, a mask is one finite set in all its views exactly when it
was made with a base other than that of every hart and with set bits whose harts
are words. -/
theorem behavesAsSet_iff (hartMask hartMaskBase : BitVec xlen.bits)
    (calls : List (MaskCall xlen)) :
    (∃ mask, (HartMask.fromMaskBase hartMask hartMaskBase).perform calls = .ok mask ∧
      mask.BehavesAsSet) ↔
    hartMaskBase.toNat ≠ xlen.usizeMax ∧
      ∀ i, hartMask.getLsbD i = true → hartMaskBase.toNat + i < xlen.words := by
  obtain ⟨mask, hperform, hfits⟩ :=
    perform_fits (HartMask.fromMaskBase hartMask hartMaskBase) calls
  have hcondition : (HartMask.fromMaskBase hartMask hartMaskBase).Fits ↔
      hartMaskBase.toNat ≠ xlen.usizeMax ∧
        ∀ i, hartMask.getLsbD i = true → hartMaskBase.toNat + i < xlen.words := by
    constructor
    · rintro ⟨hordinary, hwords⟩
      refine ⟨hordinary, fun i hbit => ?_⟩
      rw [Nat.add_comm]
      exact hwords i (mem_setBits_iff.mpr hbit)
    · rintro ⟨hordinary, hwords⟩
      refine ⟨hordinary, fun i hi => ?_⟩
      rw [Nat.add_comm]
      exact hwords i (mem_setBits_iff.mp hi)
  rw [← hcondition, ← hfits, ← behavesAsSet_iff_fits]
  constructor
  · rintro ⟨mask', hperform', hset⟩
    rw [hperform] at hperform'
    cases hperform'
    exact hset
  · intro hset
    exact ⟨mask, hperform, hset⟩

/-- The last hart id is in the mask of every hart and its iteration misses it;
and a mask based one below the last hart id, with the bits of the two harts after
its base, has a hart that is no word, so its iteration overflows. -/
theorem last_hart_not_iterated :
    (let all := HartMask.fromMaskBase 0#(Xlen.rv64.bits) (BitVec.allOnes Xlen.rv64.bits)
     all.hasBit Xlen.rv64.usizeMax = .ok true ∧ ¬ all.BehavesAsSet ∧
       ∀ ids, all.iter.toList = .ok ids → Xlen.rv64.usizeMax ∉ ids) ∧
    let top := HartMask.fromMaskBase 6#(Xlen.rv64.bits)
      (BitVec.ofNat Xlen.rv64.bits (Xlen.rv64.usizeMax - 1))
    top.hasBit Xlen.rv64.usizeMax = .ok true ∧ ¬ top.BehavesAsSet ∧
      top.iter.toList = .error .addOverflow := by
  refine ⟨⟨by decide, ?_, ?_⟩, by decide, ?_, ?_⟩
  · intro h
    exact h.fits.ordinary (by decide)
  · intro ids hids
    exact last_not_mem_iter (by decide) hids
  · intro h
    have hwords := h.fits.words 2 (by decide)
    revert hwords
    decide
  · rw [iter_ordinary (by decide)]
    exact HartIds.toList_overflows _ _ (by decide : 2 ∈ setBits 6#(Xlen.rv64.bits)) (by decide)

end RustSbi.Ipi
