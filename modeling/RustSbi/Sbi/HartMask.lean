import RustSbi.Target
import RustSbi.Lib.Bits
import RustSbi.Lib.Checked

/-!
Hart masks of the SBI and the harts that an inter-processor interrupt targets:
the iterator over the set bits of a mask and `target_requests`, which splits a
mask into windows of available harts.
-/

namespace RustSbi.Ipi

open Bits Checked

variable {xlen : Xlen}

/-! ## Hart masks -/

/-- `HartMask`. -/
structure HartMask (xlen : Xlen) where
  hartMask : BitVec xlen.bits
  hartMaskBase : Nat

/-- `HartIds`, by the state that its `UnvisitedMask` is in. -/
inductive HartIds (xlen : Xlen)
  | maskBase (unvisitedMask : BitVec xlen.bits) (base : Nat)
  | range (start stop : Nat)

/-- The harts that a mask denotes: every hart, or the base plus each set bit. -/
def HartMask.Denotes (mask : HartMask xlen) (hartId : Nat) : Prop :=
  mask.hartMaskBase = xlen.usizeMax ∨
    ∃ i, mask.hartMask.getLsbD i = true ∧ hartId = mask.hartMaskBase + i

namespace HartIds

/-- `HartIds::next`, with the iterator after it. -/
def next : HartIds xlen → Except Panic (Option (Nat × HartIds xlen))
  | maskBase unvisitedMask base =>
    if unvisitedMask = 0#(xlen.bits) then .ok none
    else
      let lowBit := unvisitedMask.ctz.toNat
      if lowBit + base < xlen.words then
        .ok (some (lowBit + base,
          maskBase (unvisitedMask &&& ~~~(1#(xlen.bits) <<< lowBit)) base))
      else .error .addOverflow
  | range start stop => .ok (if start < stop then some (start, range (start + 1) stop) else none)

/-- The lower bound of `HartIds::size_hint`. -/
def sizeHint : HartIds xlen → Nat
  | maskBase unvisitedMask _ => countOnes unvisitedMask
  | range start stop => stop - start

/-- The items of at most `fuel` calls of `next`. -/
def collect : Nat → HartIds xlen → Except Panic (List Nat)
  | 0, _ => .ok []
  | fuel + 1, ids =>
    match ids.next with
    | .error panic => .error panic
    | .ok none => .ok []
    | .ok (some (hartId, rest)) => (collect fuel rest).map (hartId :: ·)

/-- The harts that a `for` loop over the iterator visits, in order. -/
def toList (ids : HartIds xlen) : Except Panic (List Nat) := ids.collect ids.sizeHint

theorem collect_maskBase (fuel : Nat) (mask : BitVec xlen.bits) (base : Nat)
    (hfuel : countOnes mask ≤ fuel) (hfits : ∀ i ∈ setBits mask, i + base < xlen.words) :
    (maskBase mask base).collect fuel = .ok ((setBits mask).map (· + base)) := by
  induction fuel generalizing mask with
  | zero =>
    have hnil : setBits mask = [] := List.length_eq_zero_iff.mp (Nat.le_zero.mp hfuel)
    simp [collect, hnil]
  | succ fuel ih =>
    by_cases hzero : mask = 0#(xlen.bits)
    · simp [collect, next, hzero, setBits_zero]
    · have hcons := setBits_eq_ctz_cons hzero
      rw [hcons] at hfits
      have hlow : mask.ctz.toNat + base < xlen.words := hfits _ List.mem_cons_self
      have hrest := ih (mask &&& ~~~(1#(xlen.bits) <<< mask.ctz.toNat))
        (by
          rw [countOnes, hcons, List.length_cons] at hfuel
          exact Nat.le_of_succ_le_succ hfuel)
        (fun i hi => hfits i (List.mem_cons_of_mem _ hi))
      simp only [collect, next, hzero, hlow, if_false, if_true, hrest]
      rw [hcons]
      rfl

/-- A mask whose ids are words is walked from the lowest set bit to the highest. -/
theorem toList_maskBase (mask : BitVec xlen.bits) (base : Nat)
    (hfits : ∀ i ∈ setBits mask, i + base < xlen.words) :
    (maskBase mask base).toList = .ok ((setBits mask).map (· + base)) :=
  collect_maskBase _ mask base le_rfl hfits

end HartIds

/-- `HartMask::iter`. -/
def HartMask.iter (mask : HartMask xlen) : HartIds xlen :=
  if mask.hartMaskBase = xlen.usizeMax then .range 0 xlen.usizeMax
  else .maskBase mask.hartMask mask.hartMaskBase

/-! ## Target selection -/

/-- The harts of the platform: the capacity of the hart tables and the harts
that the device tree enables. The capacity fits the counter of pending fences. -/
structure Harts where
  numHartMax : Nat
  enabled : List Bool
  numHartMax_lt : numHartMax < 2 ^ 32

/-- `IpiRequest`: one window of target harts. -/
structure IpiRequest (xlen : Xlen) where
  hartMask : BitVec xlen.bits
  hartMaskBase : Nat

/-- `IpiRequest::harts`. -/
def IpiRequest.harts (request : IpiRequest xlen) : Except Panic (List Nat) :=
  (HartMask.iter ⟨request.hartMask, request.hartMaskBase⟩).toList

/-- The platform assigns the hart to this firmware. -/
def assigned (harts : Harts) (hartId : Nat) : Bool :=
  decide (hartId < harts.numHartMax) && harts.enabled.getD hartId false

/-- The hart can be interrupted; `receives` is what `hart_privilege_checked`
and `can_receive_ipi` read when the call selects its targets. -/
def available (harts : Harts) (receives : Nat → Bool) (hartId : Nat) : Bool :=
  decide (hartId < harts.numHartMax) && (assigned harts hartId && receives hartId)

/-- The mask of one window of all harts. -/
def windowMask (xlen : Xlen) (harts : Harts) (receives : Nat → Bool) (base len : Nat) :
    BitVec xlen.bits :=
  (List.range len).foldl
    (fun mask bit => mask ||| (BitVec.ofBool (available harts receives (base + bit))).setWidth _ <<< bit)
    0#(xlen.bits)

/-- The requests of a call to all harts, by `enabled.chunks(usize::BITS)`. -/
def allRequests (xlen : Xlen) (harts : Harts) (receives : Nat → Bool) : List (IpiRequest xlen) :=
  let windows := (harts.enabled.length + (xlen.bits - 1)) / xlen.bits
  (List.range windows).filterMap fun window =>
    let base := window * xlen.bits
    let len := min xlen.bits (harts.enabled.length - base)
    let mask := windowMask xlen harts receives base len
    if mask = 0#(xlen.bits) then none else some ⟨mask, base⟩

/-- The loop of `target_requests` over the bits of an ordinary mask. -/
def activeMask (xlen : Xlen) (harts : Harts) (receives : Nat → Bool) (base : Nat) :
    List Nat → BitVec xlen.bits → Except SbiRet (BitVec xlen.bits)
  | [], active => .ok active
  | bit :: bits, active =>
    match checkedAdd xlen base bit with
    | none => .error .invalidParam
    | some hartId =>
      if assigned harts hartId then
        activeMask xlen harts receives base bits
          (if available harts receives hartId then active ||| 1#(xlen.bits) <<< bit else active)
      else .error .invalidParam

/-- `target_requests`. -/
def targetRequests (harts : Harts) (receives : Nat → Bool) (hartMask : HartMask xlen) :
    Except Panic (Except SbiRet (List (IpiRequest xlen))) :=
  if hartMask.hartMaskBase = xlen.usizeMax then .ok (.ok (allRequests xlen harts receives))
  else if hartMask.hartMask ≠ 0#(xlen.bits) then do
    let bits ← (HartMask.iter ⟨hartMask.hartMask, 0⟩).toList
    return (activeMask xlen harts receives hartMask.hartMaskBase bits 0#(xlen.bits)).map fun active =>
      if active ≠ 0#(xlen.bits) then [⟨active, hartMask.hartMaskBase⟩] else []
  else .ok (.ok [])

/-- The harts of all requests, in order. -/
def requestHarts : List (IpiRequest xlen) → Except Panic (List Nat)
  | [] => .ok []
  | request :: rest =>
    match request.harts with
    | .error panic => .error panic
    | .ok first => (requestHarts rest).map (first ++ ·)

/-- The harts that a call visits, or the error with which it returns at once. -/
def targets (harts : Harts) (receives : Nat → Bool) (hartMask : HartMask xlen) :
    Except Panic (Except SbiRet (List Nat)) :=
  match targetRequests harts receives hartMask with
  | .error panic => .error panic
  | .ok (.error ret) => .ok (.error ret)
  | .ok (.ok requests) => (requestHarts requests).map .ok

/-! ## The selected harts -/

section Selected

variable {harts : Harts} {receives : Nat → Bool}

theorem lt_of_available {hartId : Nat} (h : available harts receives hartId = true) :
    hartId < harts.numHartMax := by
  simp only [available, Bool.and_eq_true, decide_eq_true_eq] at h
  exact h.1

theorem word_of_available (xlen : Xlen) {hartId : Nat}
    (h : available harts receives hartId = true) :
    hartId + 1 < xlen.words := by
  have hlt := lt_of_available h
  have hmax := harts.numHartMax_lt
  have hword := xlen.four_gigabytes_le_words
  omega

/-- The bits that a loop over distinct positions below the word size sets. -/
theorem getLsbD_foldl_or (p : Nat → Bool) (bits : List Nat) (mask : BitVec xlen.bits) (i : Nat)
    (hi : i < xlen.bits) :
    (bits.foldl (fun mask bit => mask ||| (BitVec.ofBool (p bit)).setWidth _ <<< bit) mask).getLsbD i =
      (mask.getLsbD i || (decide (i ∈ bits) && p i)) := by
  induction bits generalizing mask with
  | nil => simp
  | cons bit bits ih =>
    rw [List.foldl_cons, ih]
    cases hp : p bit with
    | false =>
      have hne : p i = true → i ≠ bit := fun hi heq => by rw [heq, hp] at hi; cases hi
      cases hpi : p i <;> simp_all
    | true =>
      have hone : (BitVec.ofBool true).setWidth xlen.bits = 1#(xlen.bits) := by
        cases xlen <;> rfl
      rw [hone, getLsbD_setBit _ hi]
      by_cases hbit : i = bit <;> simp [hbit, hp]

theorem setBits_windowMask {base len : Nat} (hlen : len ≤ xlen.bits) :
    setBits (windowMask xlen harts receives base len) =
      (List.range len).filter fun i => available harts receives (base + i) := by
  have hbit : ∀ i ∈ List.range xlen.bits,
      (windowMask xlen harts receives base len).getLsbD i =
        (decide (i < len) && available harts receives (base + i)) := by
    intro i hi
    rw [windowMask, getLsbD_foldl_or _ _ _ _ (List.mem_range.mp hi)]
    simp
  have hrange : (List.range xlen.bits).filter (fun i => decide (i < len)) = List.range len := by
    obtain ⟨k, hk⟩ := Nat.exists_eq_add_of_le hlen
    rw [hk, List.range_add, List.filter_append, List.filter_eq_self.mpr, List.filter_eq_nil_iff.mpr,
      List.append_nil]
    · simp
    · simp
  rw [setBits, List.filter_congr hbit, ← hrange, List.filter_filter]
  simp only [Bool.and_comm]

theorem harts_eq {request : IpiRequest xlen} (hmask : request.hartMask ≠ 0#(xlen.bits))
    (h : ∀ i ∈ setBits request.hartMask,
      available harts receives (request.hartMaskBase + i) = true) :
    request.harts = .ok ((setBits request.hartMask).map (· + request.hartMaskBase)) := by
  have hword : ∀ i ∈ setBits request.hartMask, request.hartMaskBase + i + 1 < xlen.words :=
    fun i hi => word_of_available xlen (h i hi)
  have hlow := hword _ (by rw [setBits_eq_ctz_cons hmask]; exact List.mem_cons_self)
  have hbase : request.hartMaskBase ≠ xlen.usizeMax := by
    unfold Xlen.usizeMax
    omega
  unfold IpiRequest.harts HartMask.iter
  rw [if_neg hbase]
  apply HartIds.toList_maskBase
  intro i hi
  show i + request.hartMaskBase < xlen.words
  have hi := hword i hi
  omega

/-- The windows of all harts, one after another, are the available harts. -/
theorem flatMap_windows (p : Nat → Bool) (size total windows : Nat) :
    ((List.range windows).flatMap fun window =>
      ((List.range (min size (total - window * size))).filter fun i =>
        p (window * size + i)).map (· + window * size)) =
      (List.range (min total (windows * size))).filter p := by
  induction windows with
  | zero => simp
  | succ windows ih =>
    rw [List.range_succ, List.flatMap_append, ih, List.flatMap_singleton, Nat.succ_mul]
    rcases Nat.le_total total (windows * size) with hle | hle
    · have hnone : total - windows * size = 0 := by omega
      rw [hnone, Nat.min_eq_left hle, Nat.min_eq_left (by omega : total ≤ windows * size + size)]
      simp
    · have hlen : min total (windows * size + size) =
          windows * size + min size (total - windows * size) := by omega
      rw [hlen, Nat.min_eq_right hle, List.range_add, List.filter_append, List.filter_map]
      congr 1
      apply List.map_congr_left
      intro i _
      exact Nat.add_comm i (windows * size)

theorem requestHarts_eq {α : Type} {l : List α} {f : α → Option (IpiRequest xlen)}
    (ids : α → List Nat) (hnone : ∀ a ∈ l, f a = none → ids a = [])
    (hsome : ∀ a ∈ l, ∀ request, f a = some request → request.harts = .ok (ids a)) :
    requestHarts (l.filterMap f) = .ok (l.flatMap ids) := by
  induction l with
  | nil => rfl
  | cons a l ih =>
    have hrest := ih (fun b hb => hnone b (List.mem_cons_of_mem a hb))
      (fun b hb => hsome b (List.mem_cons_of_mem a hb))
    cases hfa : f a with
    | none => simp [hfa, hrest, hnone a List.mem_cons_self hfa]
    | some request =>
      have hharts := hsome a List.mem_cons_self request hfa
      simp [hfa, requestHarts, hharts, hrest, Except.map]

/-- A call to all harts visits the available harts in ascending order. -/
theorem requestHarts_allRequests :
    requestHarts (allRequests xlen harts receives) =
      .ok ((List.range harts.enabled.length).filter (available harts receives)) := by
  have hbits : 0 < xlen.bits := by cases xlen <;> decide
  have hcover : harts.enabled.length ≤
      (harts.enabled.length + (xlen.bits - 1)) / xlen.bits * xlen.bits := by
    have hdiv := Nat.div_add_mod (harts.enabled.length + (xlen.bits - 1)) xlen.bits
    have hmod := Nat.mod_lt (harts.enabled.length + (xlen.bits - 1)) hbits
    rw [Nat.mul_comm] at hdiv
    omega
  have hwindow : ∀ base, setBits (windowMask xlen harts receives base
      (min xlen.bits (harts.enabled.length - base))) = _ :=
    fun base => setBits_windowMask (Nat.min_le_left _ _)
  rw [allRequests, requestHarts_eq (fun window =>
    ((List.range (min xlen.bits (harts.enabled.length - window * xlen.bits))).filter fun i =>
      available harts receives (window * xlen.bits + i)).map (· + window * xlen.bits)),
    flatMap_windows, Nat.min_eq_left hcover]
  · intro window _ hfa
    dsimp only at hfa
    split at hfa
    · rename_i hzero
      rw [← hwindow, hzero, setBits_zero, List.map_nil]
    · cases hfa
  · intro window _ request hfa
    dsimp only at hfa
    split at hfa
    · cases hfa
    · rename_i hmask
      cases hfa
      rw [← hwindow]
      apply harts_eq hmask
      intro i hi
      rw [hwindow] at hi
      exact (List.mem_filter.mp hi).2

theorem getLsbD_activeMask {base : Nat} {bits : List Nat} {active mask : BitVec xlen.bits}
    (h : activeMask xlen harts receives base bits active = .ok mask) {i : Nat}
    (hi : i < xlen.bits) :
    mask.getLsbD i =
      (active.getLsbD i || (decide (i ∈ bits) && available harts receives (base + i))) := by
  induction bits generalizing active with
  | nil =>
    cases h
    simp
  | cons bit bits ih =>
    unfold activeMask at h
    cases hadd : checkedAdd xlen base bit with
    | none => simp [hadd] at h
    | some hartId =>
      obtain ⟨rfl, -⟩ := checkedAdd_eq_some_iff.mp hadd
      cases hassigned : assigned harts (base + bit) with
      | false => simp [hadd, hassigned] at h
      | true =>
        simp only [hadd, hassigned, if_true] at h
        rw [ih h]
        cases hav : available harts receives (base + bit) with
        | false =>
          by_cases hbit : i = bit <;> simp [hbit, hav]
        | true =>
          simp only [if_true]
          rw [getLsbD_setBit _ hi]
          by_cases hbit : i = bit <;> simp [hbit, hav]

theorem activeMask_available {base : Nat} {bits : List Nat} {mask : BitVec xlen.bits}
    (h : activeMask xlen harts receives base bits 0#(xlen.bits) = .ok mask) :
    ∀ i ∈ setBits mask, available harts receives (base + i) = true := by
  intro i hi
  have hbit := getLsbD_activeMask h (lt_of_mem_setBits hi)
  rw [mem_setBits_iff.mp hi] at hbit
  simp only [BitVec.getLsbD_zero, Bool.false_or] at hbit
  exact (Bool.and_eq_true_iff.mp hbit.symm).2

/-- An ordinary mask is decoded into its set bits. -/
theorem toList_mask (mask : BitVec xlen.bits) :
    (HartMask.iter ⟨mask, 0⟩).toList = .ok (setBits mask) := by
  have hbase : 0 ≠ xlen.usizeMax := by cases xlen <;> decide
  have hbits : xlen.bits < xlen.words := by cases xlen <;> decide
  have hfits : ∀ i ∈ setBits mask, i + 0 < xlen.words := by
    intro i hi
    have hlt := lt_of_mem_setBits hi
    omega
  have hlist := HartIds.toList_maskBase mask 0 hfits
  rw [HartMask.iter, if_neg hbase, hlist]
  simp

theorem targets_all {hartMask : HartMask xlen} (hall : hartMask.hartMaskBase = xlen.usizeMax) :
    targets harts receives hartMask =
      .ok (.ok ((List.range harts.enabled.length).filter (available harts receives))) := by
  simp only [targets, targetRequests, hall, if_true, requestHarts_allRequests, Except.map]

theorem targets_ordinary {hartMask : HartMask xlen}
    (hbase : hartMask.hartMaskBase ≠ xlen.usizeMax) (hmask : hartMask.hartMask ≠ 0#(xlen.bits)) :
    targets harts receives hartMask =
      .ok ((activeMask xlen harts receives hartMask.hartMaskBase (setBits hartMask.hartMask)
        0#(xlen.bits)).map fun active => (setBits active).map (· + hartMask.hartMaskBase)) := by
  unfold targets targetRequests
  rw [if_neg hbase, if_pos hmask, toList_mask]
  simp only [bind, pure, Except.bind, Except.pure]
  cases hactive : activeMask xlen harts receives hartMask.hartMaskBase (setBits hartMask.hartMask)
      0#(xlen.bits) with
  | error ret => rfl
  | ok active =>
    by_cases hzero : active = 0#(xlen.bits)
    · subst hzero
      simp [Except.map, requestHarts, setBits_zero]
    · have hharts : IpiRequest.harts ⟨active, hartMask.hartMaskBase⟩ = _ :=
        harts_eq hzero (activeMask_available hactive)
      simp [Except.map, requestHarts, hzero, hharts]

/-- Target selection never panics: it visits available harts only, in
ascending order, or rejects the mask. -/
theorem targets_spec (harts : Harts) (receives : Nat → Bool) (hartMask : HartMask xlen) :
    (∃ ret, targets harts receives hartMask = .ok (.error ret)) ∨
    ∃ ids, targets harts receives hartMask = .ok (.ok ids) ∧ ids.Pairwise (· < ·) ∧
      ∀ hartId ∈ ids, available harts receives hartId = true := by
  by_cases hall : hartMask.hartMaskBase = xlen.usizeMax
  · right
    exact ⟨_, targets_all hall, List.pairwise_lt_range.filter _,
      fun _ hid => (List.mem_filter.mp hid).2⟩
  · by_cases hmask : hartMask.hartMask = 0#(xlen.bits)
    · right
      refine ⟨[], ?_, .nil, by simp⟩
      simp [targets, targetRequests, hall, hmask, requestHarts, Except.map]
    · rw [targets_ordinary hall hmask]
      cases hactive : activeMask xlen harts receives hartMask.hartMaskBase
          (setBits hartMask.hartMask) 0#(xlen.bits) with
      | error ret => exact .inl ⟨ret, rfl⟩
      | ok active =>
        right
        refine ⟨_, rfl, ?_, ?_⟩
        · apply List.Pairwise.map
          · intro a b hab
            exact Nat.add_lt_add_right hab _
          · exact List.pairwise_lt_range.filter _
        · intro hartId hid
          obtain ⟨i, hi, rfl⟩ := List.mem_map.mp hid
          rw [Nat.add_comm]
          exact activeMask_available hactive i hi

/-! ## Exactness -/

/-- The mask names a hart that the platform does not assign, or an id that is no word. -/
def HartMask.Misses (mask : HartMask xlen) (harts : Harts) : Prop :=
  mask.hartMaskBase ≠ xlen.usizeMax ∧ ∃ i, mask.hartMask.getLsbD i = true ∧
    (xlen.words ≤ mask.hartMaskBase + i ∨ assigned harts (mask.hartMaskBase + i) = false)

/-- The loop over the bits of an ordinary mask stops at the first one that misses. -/
theorem activeMask_eq_error_iff {base : Nat} {bits : List Nat} {active : BitVec xlen.bits}
    {ret : SbiRet} :
    activeMask xlen harts receives base bits active = .error ret ↔
      ret = .invalidParam ∧
        ∃ i ∈ bits, xlen.words ≤ base + i ∨ assigned harts (base + i) = false := by
  induction bits generalizing active with
  | nil => simp [activeMask]
  | cons bit bits ih =>
    rw [List.exists_mem_cons_iff, activeMask]
    cases hadd : checkedAdd xlen base bit with
    | none =>
      have hover : xlen.words ≤ base + bit := by
        by_contra hlt
        have hsome := checkedAdd_eq_some_iff.mpr ⟨rfl, Nat.lt_of_not_le hlt⟩
        rw [hadd] at hsome
        cases hsome
      simp only [hover, true_or, and_true, Except.error.injEq]
      exact ⟨Eq.symm, Eq.symm⟩
    | some hartId =>
      obtain ⟨rfl, hlt⟩ := checkedAdd_eq_some_iff.mp hadd
      cases hassigned : assigned harts (base + bit) with
      | false =>
        simp only [hassigned, Bool.false_eq_true, if_false, or_true, true_or, and_true,
          Except.error.injEq]
        exact ⟨Eq.symm, Eq.symm⟩
      | true =>
        have hnot : ¬ xlen.words ≤ base + bit := Nat.not_le.mpr hlt
        simp only [hassigned, if_true, ih, hnot, Bool.true_eq_false, or_self, false_or]

theorem lt_length_of_available {hartId : Nat} (h : available harts receives hartId = true) :
    hartId < harts.enabled.length := by
  simp only [available, assigned, Bool.and_eq_true, decide_eq_true_eq] at h
  obtain ⟨-, ⟨-, henabled⟩, -⟩ := h
  by_contra hge
  rw [List.getD_eq_getElem?_getD, List.getElem?_eq_none (Nat.le_of_not_lt hge)] at henabled
  cases henabled

/-- Target selection is exact: it fails for the masks that name a hart which is not assigned, and
otherwise visits the available harts of the mask, each once and in ascending order. No id that it
computes exceeds a word. -/
theorem targets_exact (harts : Harts) (receives : Nat → Bool) (hartMask : HartMask xlen) :
    ∃ result, targets harts receives hartMask = .ok result ∧
      (∀ ret, result = .error ret ↔ ret = .invalidParam ∧ hartMask.Misses harts) ∧
      (∀ ids, result = .ok ids → ids.Pairwise (· < ·) ∧ ∀ hartId, hartId ∈ ids ↔
        available harts receives hartId = true ∧ hartMask.Denotes hartId) ∧
      (harts.enabled.length = harts.numHartMax → ∀ window bit,
        bit < min xlen.bits (harts.enabled.length - window * xlen.bits) →
          window * xlen.bits + bit < xlen.words) := by
  have hwindows : harts.enabled.length = harts.numHartMax → ∀ window bit,
      bit < min xlen.bits (harts.enabled.length - window * xlen.bits) →
        window * xlen.bits + bit < xlen.words := by
    intro hlength window bit hbit
    have hmax := harts.numHartMax_lt
    have hword := xlen.four_gigabytes_le_words
    omega
  by_cases hall : hartMask.hartMaskBase = xlen.usizeMax
  · refine ⟨_, targets_all hall, ?_, ?_, hwindows⟩
    · simp [HartMask.Misses, hall]
    · rintro _ ⟨⟩
      refine ⟨List.pairwise_lt_range.filter _, fun hartId => ?_⟩
      rw [List.mem_filter, List.mem_range, HartMask.Denotes]
      exact ⟨fun h => ⟨h.2, .inl hall⟩, fun h => ⟨lt_length_of_available h.1, h.1⟩⟩
  by_cases hmask : hartMask.hartMask = 0#(xlen.bits)
  · refine ⟨.ok [], ?_, ?_, ?_, hwindows⟩
    · simp [targets, targetRequests, hall, hmask, requestHarts, Except.map]
    · simp [HartMask.Misses, hmask]
    · rintro _ ⟨⟩
      simp [HartMask.Denotes, hall, hmask]
  refine ⟨_, targets_ordinary hall hmask, ?_, ?_, hwindows⟩
  · intro ret
    have hmap : ∀ r : Except SbiRet (BitVec xlen.bits),
        r.map (fun active => (setBits active).map (· + hartMask.hartMaskBase)) = .error ret ↔
          r = .error ret := by
      rintro (e | active) <;> simp [Except.map]
    simp only [hmap, activeMask_eq_error_iff, HartMask.Misses, mem_setBits_iff, ne_eq, hall,
      not_false_eq_true, true_and]
  · intro ids hids
    cases hactive : activeMask xlen harts receives hartMask.hartMaskBase
        (setBits hartMask.hartMask) 0#(xlen.bits) with
    | error ret =>
      rw [hactive] at hids
      cases hids
    | ok active =>
      rw [hactive] at hids
      cases hids
      constructor
      · apply List.Pairwise.map
        · intro a b hab
          exact Nat.add_lt_add_right hab _
        · exact List.pairwise_lt_range.filter _
      · intro hartId
        have hbit : ∀ i, active.getLsbD i = true ↔ hartMask.hartMask.getLsbD i = true ∧
            available harts receives (hartMask.hartMaskBase + i) = true := by
          intro i
          by_cases hi : i < xlen.bits
          · rw [getLsbD_activeMask hactive hi]
            simp [mem_setBits_iff]
          · simp [BitVec.getLsbD_of_ge _ _ (Nat.le_of_not_lt hi)]
        simp only [List.mem_map, mem_setBits_iff, hbit, HartMask.Denotes, hall, false_or]
        constructor
        · rintro ⟨i, ⟨hset, hav⟩, rfl⟩
          rw [Nat.add_comm]
          exact ⟨hav, i, hset, rfl⟩
        · rintro ⟨hav, i, hset, rfl⟩
          exact ⟨i, ⟨hset, hav⟩, Nat.add_comm _ _⟩

end Selected

end RustSbi.Ipi
