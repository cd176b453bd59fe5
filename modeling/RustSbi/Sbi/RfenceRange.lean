import RustSbi.Sbi.Rfence

/-!
The address ranges of remote fences. The caller's hart checks a range before it
sends the request, and the target's hart walks it page by page; both know two
encodings of the whole address space. The fence of guest physical addresses reads
its operand in units of four bytes, which the walk does not take into account.
-/

namespace RustSbi.Rfence

variable {platform : Platform}

/-! ## The calls -/

/-- `validate_address_range`; the arguments are `usize` values. -/
def validateAddressRange (platform : Platform) (startAddr size : Nat) : Except SbiRet Nat :=
  if ¬ ((startAddr = 0 ∧ size = 0) ∨ size = platform.xlen.usizeMax) ∧
      startAddr &&& (platform.pageSize - 1) ≠ 0 then .error .invalidAddress
  else if platform.xlen.usizeMax - size < startAddr then .error .invalidAddress
  else .ok size

/-- What the calls have in common until `remote_fence_process`: the context that it is given. -/
def requestFence (platform : Platform) (startAddr size asid vmid : Nat) (op : RFenceType) :
    Except SbiRet RFenceContext := do
  let flushSize ← validateAddressRange platform startAddr size
  return ⟨startAddr, flushSize, asid, vmid, op⟩

/-- A call for a range, with the arguments of the supervisor. -/
inductive RangeCall (xlen : Xlen)
  | remoteSfenceVma (startAddr size : BitVec xlen.bits)
  | remoteSfenceVmaAsid (startAddr size asid : BitVec xlen.bits)
  | remoteHfenceGvmaVmid (startAddr size vmid : BitVec xlen.bits)
  | remoteHfenceGvma (startAddr size : BitVec xlen.bits)
  | remoteHfenceVvmaAsid (startAddr size asid : BitVec xlen.bits)
  | remoteHfenceVvma (startAddr size : BitVec xlen.bits)
  deriving DecidableEq, Repr

section Calls

variable (platform : Platform)

def remoteSfenceVma (startAddr size : Nat) : List FenceOp × Except SbiRet RFenceContext :=
  ([.pmuIncrement 10], requestFence platform startAddr size 0 0 .sfenceVma)

def remoteSfenceVmaAsid (startAddr size asid : Nat) : List FenceOp × Except SbiRet RFenceContext :=
  ([.pmuIncrement 12], requestFence platform startAddr size asid 0 .sfenceVmaAsid)

/-- The hypervisor fences ask first whether the hart has the extension. -/
def ifHypervisor (supportsHypervisor : Bool)
    (call : List FenceOp × Except SbiRet RFenceContext) :
    List FenceOp × Except SbiRet RFenceContext :=
  if supportsHypervisor then call else ([], .error .notSupported)

def remoteHfenceGvmaVmid (supportsHypervisor : Bool) (startAddr size vmid : Nat) :
    List FenceOp × Except SbiRet RFenceContext :=
  ifHypervisor supportsHypervisor
    ([.pmuIncrement 16], requestFence platform startAddr size 0 vmid .hfenceGvmaVmid)

def remoteHfenceGvma (supportsHypervisor : Bool) (startAddr size : Nat) :
    List FenceOp × Except SbiRet RFenceContext :=
  ifHypervisor supportsHypervisor
    ([.pmuIncrement 14], requestFence platform startAddr size 0 0 .hfenceGvma)

def remoteHfenceVvmaAsid (supportsHypervisor : Bool) (startAddr size asid : Nat) :
    List FenceOp × Except SbiRet RFenceContext :=
  ifHypervisor supportsHypervisor
    ([.pmuIncrement 20], requestFence platform startAddr size asid 0 .hfenceVvmaAsid)

def remoteHfenceVvma (supportsHypervisor : Bool) (startAddr size : Nat) :
    List FenceOp × Except SbiRet RFenceContext :=
  ifHypervisor supportsHypervisor
    ([.pmuIncrement 18], requestFence platform startAddr size 0 0 .hfenceVvma)

end Calls

namespace RangeCall

/-- What a call counts, and the error it returns or the context it goes on to send. -/
def send (platform : Platform) (supportsHypervisor : Bool) :
    RangeCall platform.xlen → List FenceOp × Except SbiRet RFenceContext
  | remoteSfenceVma startAddr size =>
    Rfence.remoteSfenceVma platform startAddr.toNat size.toNat
  | remoteSfenceVmaAsid startAddr size asid =>
    Rfence.remoteSfenceVmaAsid platform startAddr.toNat size.toNat asid.toNat
  | remoteHfenceGvmaVmid startAddr size vmid =>
    Rfence.remoteHfenceGvmaVmid platform supportsHypervisor startAddr.toNat size.toNat vmid.toNat
  | remoteHfenceGvma startAddr size =>
    Rfence.remoteHfenceGvma platform supportsHypervisor startAddr.toNat size.toNat
  | remoteHfenceVvmaAsid startAddr size asid =>
    Rfence.remoteHfenceVvmaAsid platform supportsHypervisor startAddr.toNat size.toNat asid.toNat
  | remoteHfenceVvma startAddr size =>
    Rfence.remoteHfenceVvma platform supportsHypervisor startAddr.toNat size.toNat

variable {xlen : Xlen}

def startAddr : RangeCall xlen → Nat
  | remoteSfenceVma startAddr _ | remoteSfenceVmaAsid startAddr _ _
  | remoteHfenceGvmaVmid startAddr _ _ | remoteHfenceGvma startAddr _
  | remoteHfenceVvmaAsid startAddr _ _ | remoteHfenceVvma startAddr _ => startAddr.toNat

def size : RangeCall xlen → Nat
  | remoteSfenceVma _ size | remoteSfenceVmaAsid _ size _
  | remoteHfenceGvmaVmid _ size _ | remoteHfenceGvma _ size
  | remoteHfenceVvmaAsid _ size _ | remoteHfenceVvma _ size => size.toNat

/-- The context of an accepted call. -/
def context : RangeCall xlen → RFenceContext
  | remoteSfenceVma startAddr size => ⟨startAddr.toNat, size.toNat, 0, 0, .sfenceVma⟩
  | remoteSfenceVmaAsid startAddr size asid =>
    ⟨startAddr.toNat, size.toNat, asid.toNat, 0, .sfenceVmaAsid⟩
  | remoteHfenceGvmaVmid startAddr size vmid =>
    ⟨startAddr.toNat, size.toNat, 0, vmid.toNat, .hfenceGvmaVmid⟩
  | remoteHfenceGvma startAddr size => ⟨startAddr.toNat, size.toNat, 0, 0, .hfenceGvma⟩
  | remoteHfenceVvmaAsid startAddr size asid =>
    ⟨startAddr.toNat, size.toNat, asid.toNat, 0, .hfenceVvmaAsid⟩
  | remoteHfenceVvma startAddr size => ⟨startAddr.toNat, size.toNat, 0, 0, .hfenceVvma⟩

/-- The fence of the whole address space that a call is about. -/
def whole : RangeCall xlen → FenceOp
  | remoteSfenceVma _ _ => .sfenceVmaAll
  | remoteSfenceVmaAsid _ _ asid => .sfenceVmaAsid asid.toNat
  | remoteHfenceGvmaVmid _ _ vmid => .hfenceGvmaVmid vmid.toNat
  | remoteHfenceGvma _ _ => .hfenceGvmaAll
  | remoteHfenceVvmaAsid _ _ asid => .hfenceVvmaAsid asid.toNat
  | remoteHfenceVvma _ _ => .hfenceVvmaAll

/-- The fence of one page of it. -/
def page : RangeCall xlen → Nat → FenceOp
  | remoteSfenceVma _ _ => .sfenceVmaAddr
  | remoteSfenceVmaAsid _ _ asid => (.sfenceVmaAddrAsid · asid.toNat)
  | remoteHfenceGvmaVmid _ _ vmid => (.hfenceGvmaAddrVmid · vmid.toNat)
  | remoteHfenceGvma _ _ => .hfenceGvmaAddr
  | remoteHfenceVvmaAsid _ _ asid => (.hfenceVvmaAddrAsid · asid.toNat)
  | remoteHfenceVvma _ _ => .hfenceVvmaAddr

/-- The call is for guest physical addresses. -/
def isGvma : RangeCall xlen → Bool
  | remoteHfenceGvmaVmid _ _ _ | remoteHfenceGvma _ _ => true
  | _ => false

/-- The address that a page fence is for. `hfence.gvma` takes a guest physical address shifted
right by two bits as its operand, and `csr::fence` hands it the address itself. -/
def fenced (request : RangeCall xlen) (addr : Nat) : Nat :=
  if request.isGvma then 4 * addr else addr

/-- The hart has the extension that the call needs. -/
def Supported (supportsHypervisor : Bool) : RangeCall xlen → Prop
  | remoteSfenceVma _ _ | remoteSfenceVmaAsid _ _ _ => True
  | _ => supportsHypervisor = true

end RangeCall

/-! ## What a range promises -/

/-- The two encodings of the whole address space. -/
def FullAddressSpace (xlen : Xlen) (startAddr size : Nat) : Prop :=
  (startAddr = 0 ∧ size = 0) ∨ size = xlen.words - 1

instance (xlen : Xlen) (startAddr size : Nat) : Decidable (FullAddressSpace xlen startAddr size) :=
  inferInstanceAs (Decidable (_ ∨ _))

/-- The fences cover the range of a call: each of its addresses is in the page of one of them, or
one of them is for the whole address space. -/
def Covers (platform : Platform) (request : RangeCall platform.xlen) (fences : List FenceOp) : Prop :=
  request.whole ∈ fences ∨
    ∀ a, request.startAddr ≤ a → a < request.startAddr + request.size →
      ∃ addr, request.page addr ∈ fences ∧
        request.fenced addr / platform.pageSize = a / platform.pageSize

/-- `full_flush` of the handler: the whole address space, or more than `TLB_FLUSH_LIMIT` of it. -/
def FullFlush (platform : Platform) (startAddr size : Nat) : Prop :=
  FullAddressSpace platform.xlen startAddr size ∨ platform.tlbFlushLimit < size

instance (platform : Platform) (startAddr size : Nat) : Decidable (FullFlush platform startAddr size) :=
  inferInstanceAs (Decidable (_ ∨ _))

/-- A call is rejected for its range exactly when the range is neither the whole address space nor
one of whole pages inside it, and an accepted one is covered by the handler of its target, whose
loop does not overflow. -/
structure RangeKept (platform : Platform) (supportsHypervisor : Bool)
    (request : RangeCall platform.xlen) : Prop where
  rejected : (request.send platform supportsHypervisor).2 = .error .invalidAddress ↔
    ¬ FullAddressSpace platform.xlen request.startAddr request.size ∧
      (¬ platform.pageSize ∣ request.startAddr ∨
        platform.xlen.words < request.startAddr + request.size)
  covered : ∀ ctx, (request.send platform supportsHypervisor).2 = .ok ctx →
    Covers platform request (rfenceLocalHandler platform ctx)
  no_overflow : ∀ ctx, (request.send platform supportsHypervisor).2 = .ok ctx →
    ∀ i, i * platform.pageSize < ctx.size → ctx.startAddr + i * platform.pageSize < platform.xlen.words

/-! ## The check -/

theorem RangeCall.send_eq {supportsHypervisor : Bool} {request : RangeCall platform.xlen}
    (h : request.Supported supportsHypervisor) :
    (request.send platform supportsHypervisor).2 =
      (validateAddressRange platform request.startAddr request.size).map fun _ => request.context := by
  have hok : ∀ {startAddr size asid vmid op}, requestFence platform startAddr size asid vmid op =
      (validateAddressRange platform startAddr size).map fun _ => ⟨startAddr, size, asid, vmid, op⟩ := by
    intro startAddr size asid vmid op
    simp only [requestFence, validateAddressRange]
    split_ifs <;> rfl
  cases request with
  | remoteSfenceVma | remoteSfenceVmaAsid => exact hok
  | remoteHfenceGvmaVmid | remoteHfenceGvma | remoteHfenceVvmaAsid | remoteHfenceVvma =>
    obtain rfl : supportsHypervisor = true := h
    exact hok

theorem RangeCall.size_lt {xlen : Xlen} (request : RangeCall xlen) : request.size < xlen.words := by
  cases request <;> exact BitVec.isLt _

section Check

variable {k : Nat} {startAddr size : Nat}

/-- The check rejects what is not aligned, unless it is the whole address space, and every range
that ends at the top or beyond it. -/
theorem validateAddressRange_eq (hpage : platform.pageSize = 2 ^ k)
    (hsize : size < platform.xlen.words) :
    validateAddressRange platform startAddr size =
      if (¬ FullAddressSpace platform.xlen startAddr size ∧ ¬ platform.pageSize ∣ startAddr) ∨
        platform.xlen.words ≤ startAddr + size then .error .invalidAddress else .ok size := by
  have hpos := platform.xlen.words_pos
  have haligned : startAddr &&& (platform.pageSize - 1) ≠ 0 ↔ ¬ platform.pageSize ∣ startAddr := by
    rw [hpage, Nat.and_two_pow_sub_one_eq_mod, Nat.dvd_iff_mod_eq_zero]
  have hend : platform.xlen.usizeMax - size < startAddr ↔ platform.xlen.words ≤ startAddr + size := by
    rw [Xlen.usizeMax]
    omega
  simp only [validateAddressRange, haligned, hend]
  unfold FullAddressSpace
  rw [Xlen.usizeMax]
  split_ifs <;> first | rfl | tauto

end Check

/-! ## The handler -/

section Handler

variable {ctx : RFenceContext} {all : FenceOp} {page : Nat → FenceOp}

theorem flush_of_full (h : FullFlush platform ctx.startAddr ctx.size) :
    flush platform ctx all page = [all] := by
  rw [flush, if_pos]
  unfold FullFlush FullAddressSpace at h
  rw [Xlen.usizeMax]
  tauto

/-- The pages of the loop, one after another from the start. -/
theorem mem_flush_iff (hpage : 0 < platform.pageSize)
    (h : ¬ FullFlush platform ctx.startAddr ctx.size)
    (hend : ctx.startAddr + ctx.size < platform.xlen.words) {op : FenceOp} :
    op ∈ flush platform ctx all page ↔
      ∃ i, i * platform.pageSize < ctx.size ∧ op = page (ctx.startAddr + i * platform.pageSize) := by
  rw [flush, if_neg, List.mem_map]
  · refine exists_congr fun i => ?_
    rw [List.mem_range, Nat.lt_div_iff_mul_lt hpage]
    have hlast : i * platform.pageSize < ctx.size + (platform.pageSize - 1) - (platform.pageSize - 1) ↔
        i * platform.pageSize < ctx.size := by omega
    rw [hlast]
    refine and_congr_right fun hi => ?_
    rw [Nat.mod_eq_of_lt (by omega), eq_comm]
  · unfold FullFlush FullAddressSpace at h
    rw [Xlen.usizeMax]
    tauto

end Handler

theorem RangeCall.handler_eq (request : RangeCall platform.xlen) :
    ∃ event, rfenceLocalHandler platform request.context =
      .pmuIncrement event :: flush platform request.context request.whole request.page := by
  cases request <;> exact ⟨_, rfl⟩

theorem RangeCall.context_range {xlen : Xlen} (request : RangeCall xlen) :
    request.context.startAddr = request.startAddr ∧ request.context.size = request.size := by
  cases request <;> exact ⟨rfl, rfl⟩

theorem RangeCall.page_inj {xlen : Xlen} (request : RangeCall xlen) {addr addr' : Nat}
    (h : request.page addr = request.page addr') : addr = addr' := by
  cases request <;> · injection h

/-- The fences of a range that is not flushed as a whole. -/
theorem covers_handler_iff_pages (hpage : 0 < platform.pageSize) (request : RangeCall platform.xlen)
    (hfull : ¬ FullFlush platform request.startAddr request.size)
    (hend : request.startAddr + request.size < platform.xlen.words) :
    Covers platform request (rfenceLocalHandler platform request.context) ↔
      ∀ a, request.startAddr ≤ a → a < request.startAddr + request.size →
        ∃ i, i * platform.pageSize < request.size ∧
          request.fenced (request.startAddr + i * platform.pageSize) / platform.pageSize =
            a / platform.pageSize := by
  obtain ⟨event, hhandler⟩ := request.handler_eq
  obtain ⟨hstart, hsize⟩ := request.context_range
  rw [← hstart, ← hsize] at hfull hend
  have hwhole : request.whole ∉ rfenceLocalHandler platform request.context := by
    rw [hhandler, List.mem_cons, mem_flush_iff hpage hfull hend]
    rintro (h | ⟨i, -, h⟩)
    · cases request <;> cases h
    · cases request <;> cases h
  have hpages : ∀ addr, request.page addr ∈ rfenceLocalHandler platform request.context ↔
      ∃ i, i * platform.pageSize < request.size ∧
        addr = request.startAddr + i * platform.pageSize := by
    intro addr
    have hevent : request.page addr ≠ .pmuIncrement event := by cases request <;> nofun
    rw [hhandler, List.mem_cons, or_iff_right hevent, mem_flush_iff hpage hfull hend, hstart, hsize]
    refine exists_congr fun i => and_congr_right fun _ => ⟨request.page_inj, ?_⟩
    rintro rfl
    rfl
  rw [Covers, or_iff_right hwhole]
  refine forall_congr' fun a => imp_congr_right fun _ => imp_congr_right fun _ => ?_
  simp only [hpages]
  constructor
  · rintro ⟨_, ⟨i, hi, rfl⟩, heq⟩
    exact ⟨i, hi, heq⟩
  · rintro ⟨i, hi, heq⟩
    exact ⟨_, ⟨i, hi, rfl⟩, heq⟩

/-- The handler covers every range of whole pages, but one of guest physical addresses only if it
is flushed as a whole or has no page other than the first: the operand of `hfence.gvma` is read as
four times the address. -/
theorem covers_handler_iff (hpage : 0 < platform.pageSize) (request : RangeCall platform.xlen)
    (haligned : platform.pageSize ∣ request.startAddr)
    (hend : request.startAddr + request.size < platform.xlen.words) :
    Covers platform request (rfenceLocalHandler platform request.context) ↔
      (request.isGvma = true → FullFlush platform request.startAddr request.size ∨
        request.size = 0 ∨ (request.startAddr = 0 ∧ request.size ≤ platform.pageSize)) := by
  by_cases hfull : FullFlush platform request.startAddr request.size
  · refine iff_of_true (Or.inl ?_) fun _ => Or.inl hfull
    obtain ⟨event, hhandler⟩ := request.handler_eq
    obtain ⟨hstart, hsize⟩ := request.context_range
    rw [hhandler, flush_of_full (by rwa [hstart, hsize])]
    exact List.mem_cons_of_mem _ List.mem_cons_self
  rw [covers_handler_iff_pages hpage request hfull hend]
  obtain ⟨n, hn⟩ := haligned
  have hnumber : ∀ i, (request.startAddr + i * platform.pageSize) =
      platform.pageSize * (n + i) := by
    intro i
    rw [hn, Nat.mul_add, Nat.mul_comm i]
  cases hgvma : request.isGvma with
  | false =>
    refine iff_of_true (fun a hstart hstop => ?_) nofun
    -- The page of the address, counted from the start.
    have hle : (a - request.startAddr) / platform.pageSize * platform.pageSize ≤
        a - request.startAddr := Nat.div_mul_le_self _ _
    refine ⟨(a - request.startAddr) / platform.pageSize, by omega, ?_⟩
    have ha : platform.pageSize * n + (a - request.startAddr) = a := by omega
    calc request.fenced (request.startAddr + (a - request.startAddr) / platform.pageSize *
          platform.pageSize) / platform.pageSize
      _ = n + (a - request.startAddr) / platform.pageSize := by
        rw [RangeCall.fenced, hgvma, if_neg Bool.false_ne_true, hnumber,
          Nat.mul_div_cancel_left _ hpage]
      _ = (platform.pageSize * n + (a - request.startAddr)) / platform.pageSize :=
        (Nat.mul_add_div hpage n _).symm
      _ = a / platform.pageSize := by rw [ha]
  | true =>
    have hfenced : ∀ i, request.fenced (request.startAddr + i * platform.pageSize) /
        platform.pageSize = 4 * (n + i) := by
      intro i
      rw [RangeCall.fenced, hgvma, if_pos rfl, hnumber, Nat.mul_left_comm,
        Nat.mul_div_cancel_left _ hpage]
    simp only [hfenced, hfull, false_or, true_imp_iff]
    constructor
    · intro hcovered
      by_contra hnot
      obtain ⟨hsize, hfirst⟩ := not_or.mp hnot
      -- The first page is covered only if it is page 0, and the second one never.
      obtain ⟨i, -, hi⟩ := hcovered request.startAddr le_rfl (by omega)
      rw [hn, Nat.mul_div_cancel_left _ hpage] at hi
      have hzero : n = 0 := by omega
      rw [hzero, Nat.mul_zero] at hn
      obtain ⟨j, -, hj⟩ := hcovered platform.pageSize (by omega) (by omega)
      rw [Nat.div_self hpage] at hj
      omega
    · rintro (hsize | ⟨hstart, hsize⟩) a hle hlt
      · omega
      · refine ⟨0, by omega, ?_⟩
        have hzero : n = 0 := by
          rw [hn] at hstart
          exact (Nat.mul_eq_zero.mp hstart).resolve_left hpage.ne'
        rw [Nat.div_eq_of_lt (by omega), hzero]

section Contract

variable {supportsHypervisor : Bool} {request : RangeCall platform.xlen}

theorem RangeKept.of_rejected
    (herror : (request.send platform supportsHypervisor).2 = .error .invalidAddress)
    (hfull : ¬ FullAddressSpace platform.xlen request.startAddr request.size)
    (hrange : ¬ platform.pageSize ∣ request.startAddr ∨
      platform.xlen.words < request.startAddr + request.size) :
    RangeKept platform supportsHypervisor request := by
  refine ⟨iff_of_true herror ⟨hfull, hrange⟩, ?_, ?_⟩
  · intro ctx hok
    rw [herror] at hok
    cases hok
  · intro ctx hok
    rw [herror] at hok
    cases hok

theorem RangeKept.of_accepted
    (hok : (request.send platform supportsHypervisor).2 = .ok request.context)
    (haligned : platform.pageSize ∣ request.startAddr)
    (hend : request.startAddr + request.size < platform.xlen.words)
    (hcovers : Covers platform request (rfenceLocalHandler platform request.context)) :
    RangeKept platform supportsHypervisor request := by
  refine ⟨iff_of_false (by rw [hok]; nofun) ?_, ?_, ?_⟩
  · rintro ⟨-, hnot | hlt⟩
    · exact hnot haligned
    · omega
  · intro ctx hctx
    rw [hok] at hctx
    cases hctx
    exact hcovers
  · intro ctx hctx i hi
    rw [hok] at hctx
    cases hctx
    obtain ⟨hstart, hsize⟩ := request.context_range
    omega

end Contract

/-- The contract of the ranges is kept if and only if the request is not one for the whole address
space from another start than zero, the range does not end exactly at the top, and guest physical
addresses are not fenced page by page beyond the first page. -/
theorem fence_range_iff (platform : Platform) (hpage : ∃ k, platform.pageSize = 2 ^ k)
    (supportsHypervisor : Bool) (request : RangeCall platform.xlen)
    (hsupported : request.Supported supportsHypervisor) :
    RangeKept platform supportsHypervisor request ↔
      (request.size = platform.xlen.words - 1 → request.startAddr = 0) ∧
        ¬ (platform.pageSize ∣ request.startAddr ∧
          request.startAddr + request.size = platform.xlen.words) ∧
        (request.isGvma = true → platform.pageSize ∣ request.startAddr →
          request.startAddr + request.size < platform.xlen.words →
            FullFlush platform request.startAddr request.size ∨ request.size = 0 ∨
              (request.startAddr = 0 ∧ request.size ≤ platform.pageSize)) := by
  obtain ⟨k, hk⟩ := hpage
  have hpos : 0 < platform.pageSize := hk ▸ Nat.two_pow_pos k
  have hwords := platform.xlen.words_pos
  have hsend := RangeCall.send_eq hsupported
  rw [validateAddressRange_eq hk request.size_lt] at hsend
  constructor
  · rintro ⟨hrejected, hcovered, -⟩
    refine ⟨?_, ?_, ?_⟩
    · intro hmax
      by_contra hstart
      have hcode : platform.xlen.words ≤ request.startAddr + request.size := by omega
      rw [if_pos (Or.inr hcode)] at hsend
      exact (hrejected.mp hsend).1 (Or.inr hmax)
    · rintro ⟨haligned, htop⟩
      rw [if_pos (Or.inr htop.ge)] at hsend
      rcases (hrejected.mp hsend).2 with hnot | hlt
      · exact hnot haligned
      · omega
    · intro hgvma haligned hend
      have hgood : ¬ ((¬ FullAddressSpace platform.xlen request.startAddr request.size ∧
          ¬ platform.pageSize ∣ request.startAddr) ∨
            platform.xlen.words ≤ request.startAddr + request.size) := by
        rintro (⟨-, hnot⟩ | hle)
        · exact hnot haligned
        · omega
      rw [if_neg hgood] at hsend
      exact (covers_handler_iff hpos request haligned hend).mp (hcovered _ hsend) hgvma
  · rintro ⟨hmax, htop, hguest⟩
    split at hsend
    next hbad =>
      rcases hbad with ⟨hfull, haligned⟩ | hend
      · exact .of_rejected hsend hfull (Or.inl haligned)
      · refine .of_rejected hsend ?_ ?_
        · rintro (⟨hstart, hzero⟩ | hfull)
          · omega
          · have hstart := hmax hfull
            omega
        · by_cases haligned : platform.pageSize ∣ request.startAddr
          · exact Or.inr (lt_of_le_of_ne hend fun heq => htop ⟨haligned, heq.symm⟩)
          · exact Or.inl haligned
    next hgood =>
      have hend : request.startAddr + request.size < platform.xlen.words :=
        not_le.mp fun hle => hgood (Or.inr hle)
      have haligned : platform.pageSize ∣ request.startAddr := by
        by_contra hnot
        have hfull : FullAddressSpace platform.xlen request.startAddr request.size := by
          by_contra hfull
          exact hgood (Or.inl ⟨hfull, hnot⟩)
        have hstart : request.startAddr = 0 := hfull.elim (fun h => h.1) hmax
        exact hnot (hstart ▸ Nat.dvd_zero _)
      exact .of_accepted hsend haligned hend
        ((covers_handler_iff hpos request haligned hend).mpr fun hgvma => hguest hgvma haligned hend)

/-- One hart on RV64 with pages of 4 KiB. -/
def oneHart : Platform := ⟨.rv64, ⟨1, [true], by decide⟩, 4096, 16384⟩

/-- Two pages, and the whole address space in its second encoding. -/
theorem fence_range_two_pages :
    RangeKept oneHart false (.remoteSfenceVma 0x1000 0x2000) ∧
      RangeKept oneHart true (.remoteHfenceGvma 0 0xffffffffffffffff) := by
  have hpage : ∃ k, oneHart.pageSize = 2 ^ k := ⟨12, rfl⟩
  constructor
  · refine (fence_range_iff oneHart hpage false _ ?_).mpr (by decide)
    exact trivial
  · refine (fence_range_iff oneHart hpage true _ ?_).mpr (by decide)
    rfl

/-- A request for the whole address space from the second page on is rejected, and so is one for
the last page; one for the second page of guest physical addresses is accepted and fences the
fifth one. -/
theorem fence_range_rejected :
    ¬ RangeKept oneHart false (.remoteSfenceVma 0x1000 0xffffffffffffffff) ∧
      ¬ RangeKept oneHart false (.remoteSfenceVma 0xfffffffffffff000 0x1000) ∧
      ¬ RangeKept oneHart true (.remoteHfenceGvma 0x1000 0x1000) := by
  refine ⟨?_, ?_, ?_⟩
  · rintro ⟨hrejected, -, -⟩
    exact (hrejected.mp (by decide)).1 (by decide)
  · rintro ⟨hrejected, -, -⟩
    exact absurd (hrejected.mp (by decide)).2 (by decide)
  · rintro ⟨-, hcovered, -⟩
    have hcovers := hcovered _ rfl
    have hpage : 0 < oneHart.pageSize := by decide
    have honly := (covers_handler_iff hpage (.remoteHfenceGvma 0x1000 0x1000) (by decide)
      (by decide)).mp hcovers rfl
    revert honly
    decide

end RustSbi.Rfence
