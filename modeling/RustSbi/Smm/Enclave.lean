import RustSbi.Smm.Regions

/-!
Enclave memory of the secure-memory manager: the blocks that `alloc_em` has handed
out and `free_em` has not taken back, region by region, and what they mean for the
used flag of a region and for `reclaim`.
-/

namespace RustSbi.Smm

open Checked (Panic)
open Transition (Run)

/-! ## The buddy allocator -/

/-- What the manager relies on of the buddy allocator, for areas that the PMP can protect
and blocks that are aligned to their size: `Live h heap live` says that `h` manages the
area `heap` and that `live` are its allocated blocks. Nothing is said of an `init` that
does not return; at address zero it panics or writes through a null pointer. -/
structure HeapContract (build : Build) (H : Type) [BuddyHeap H]
    (Live : H → Area → List Area → Prop) : Prop where
  init : ∀ {heap : Area} {h : H}, heap.Protectable → heap.stop < build.xlen.words →
    BuddyHeap.init (BuddyHeap.new : H) heap.addr heap.len = .ok h → Live h heap []
  alloc_some : ∀ {h h' : H} {heap live} {size ptr : Nat}, Live h heap live → 0 < size →
    BuddyHeap.alloc h ⟨size, size⟩ = .ok (some ptr, h') →
      ptr ≠ 0 ∧ (⟨ptr, size⟩ : Area).Inside heap ∧ (∀ b ∈ live, b.Apart ⟨ptr, size⟩) ∧
        Live h' heap (⟨ptr, size⟩ :: live)
  alloc_none : ∀ {h h' : H} {heap live} {size : Nat}, Live h heap live → 0 < size →
    BuddyHeap.alloc h ⟨size, size⟩ = .ok (none, h') → Live h' heap live
  dealloc : ∀ {h : H} {heap live} {block : Area}, Live h heap live → block ∈ live →
    ∃ h', BuddyHeap.dealloc h block.addr ⟨block.len, block.len⟩ = .ok h' ∧
      Live h' heap (live.erase block)
  stats_le : ∀ {h : H} {heap live}, Live h heap live →
    BuddyHeap.statsAllocActual h ≤ BuddyHeap.statsTotalBytes h
  stats_zero : ∀ {h : H} {heap live}, Live h heap live →
    (BuddyHeap.statsAllocActual h = 0 ↔ live = [])

/-! ## Blocks of one region -/

/-- A block that `alloc_em` can have returned. -/
def Area.IsBlock (build : Build) (b : Area) : Prop :=
  b.addr ≠ 0 ∧ Layout.fromSizeAlign build b.len b.len = some ⟨b.len, b.len⟩

section Layouts

variable {build : Build} {n : Nat} {layout : Layout} {b : Area}

theorem Layout.fromSizeAlign_eq_some_iff :
    Layout.fromSizeAlign build n n = some layout ↔
      (∃ k, n = 2 ^ k) ∧ n + n ≤ build.xlen.words / 2 ∧ layout = ⟨n, n⟩ := by
  simp only [fromSizeAlign, Option.ite_none_right_eq_some, Option.some.injEq]
  constructor
  · rintro ⟨⟨hne, hpow, hle⟩, rfl⟩
    exact ⟨(Nat.and_sub_one_eq_zero_iff_isPowerOfTwo hne).mp hpow, hle, rfl⟩
  · rintro ⟨⟨k, rfl⟩, hle, rfl⟩
    have hne : 2 ^ k ≠ 0 := (Nat.two_pow_pos k).ne'
    exact ⟨⟨hne, (Nat.and_sub_one_eq_zero_iff_isPowerOfTwo hne).mpr ⟨k, rfl⟩, hle⟩, rfl⟩

/-- The layout that `free_em` asks for is that of the power of two. -/
theorem Layout.of_nextPowerOfTwo {len : Nat} (h : build.nextPowerOfTwo len = .ok n) :
    Layout.fromSizeAlign build (2 ^ Nat.clog 2 len) (2 ^ Nat.clog 2 len) =
      Layout.fromSizeAlign build n n := by
  unfold Build.nextPowerOfTwo at h
  split at h
  · rw [Checked.pure_eq_ok_iff.mp h]
  next hwords =>
    split at h
    · cases h
    · -- without overflow checks the result is zero, which is no length either
      obtain rfl := Checked.pure_eq_ok_iff.mp h
      rw [Layout.fromSizeAlign, Layout.fromSizeAlign, if_neg (by omega), if_neg (by simp)]

theorem Area.IsBlock.len_pos (h : b.IsBlock build) : 0 < b.len := by
  obtain ⟨⟨k, hk⟩, -, -⟩ := Layout.fromSizeAlign_eq_some_iff.mp h.2
  rw [hk]
  exact Nat.two_pow_pos k

theorem Area.IsBlock.nextPowerOfTwo_eq_ok (h : b.IsBlock build) :
    build.nextPowerOfTwo b.len = .ok b.len := by
  obtain ⟨⟨k, hk⟩, hle, -⟩ := Layout.fromSizeAlign_eq_some_iff.mp h.2
  have hpow : 2 ^ Nat.clog 2 b.len = b.len := by
    rw [hk, Nat.clog_pow 2 k (by decide)]
  have hlt : b.len < build.xlen.words := by
    have := h.len_pos
    omega
  simp only [Build.nextPowerOfTwo, hpow, if_pos hlt]
  rfl

/-- A block lies in one of two areas that share no address. -/
theorem Area.IsBlock.not_inside_both (h : b.IsBlock build) {r s : Area} (hr : b.Inside r)
    (hs : b.Inside s) : ¬ r.Apart s := by
  intro hapart
  have hself : b.Apart b := hapart.mono hr hs
  have hpos := h.len_pos
  unfold Apart stop at hself
  omega

end Layouts

/-- A region with the allocators of the crate. -/
abbrev EnclaveRegion (build : Build) (H : Type) := SecMemRegion RTAlloc (AppAlloc build H)

section Region

variable {build : Build} {H : Type} (Live : H → Area → List Area → Prop)

/-- The region's allocator agrees with its allocated blocks. A runtime region at
address zero counts as taken although no block can be made of it. -/
def AllocatorOk (r : EnclaveRegion build H) (live : List Area) : Prop :=
  match r.allocator with
  | .none => live = []
  | .general => live = []
  | .runtime a =>
    a.addr = r.addr ∧ a.total = r.len ∧
      ((live = [] ∧ (a.len = 0 ∨ a.len = r.len)) ∨ (live = [r.area] ∧ a.len = 0))
  | .application a => Live a.buddy r.area live

/-- The allocated blocks of a region: they lie in it and share no address, and it is
marked used if and only if there is one. -/
structure RegionOk (r : EnclaveRegion build H) (live : List Area) : Prop where
  protectable : r.area.Protectable
  bounded : r.area.stop < build.xlen.words
  inside : ∀ b ∈ live, b.Inside r.area
  block : ∀ b ∈ live, b.IsBlock build
  apart : live.Pairwise Area.Apart
  used : r.isUsed = true ↔ live ≠ []
  allocator : AllocatorOk Live r live

variable {Live} {r r' : EnclaveRegion build H} {live : List Area}

theorem RegionOk.of_new {addr len id slot : Nat} (hprotectable : (⟨addr, len⟩ : Area).Protectable)
    (hstop : addr + len < build.xlen.words) :
    RegionOk Live (.new addr len id slot : EnclaveRegion build H) [] where
  protectable := hprotectable
  bounded := hstop
  inside := by simp
  block := by simp
  apart := .nil
  used := by simp [SecMemRegion.new]
  allocator := rfl

/-- A change of the allocator alone. -/
theorem RegionOk.setAllocator (hok : RegionOk Live r live)
    {allocator : SecMemAllocatorWrapper RTAlloc (AppAlloc build H)}
    (halloc : AllocatorOk Live { r with allocator } live) :
    RegionOk Live { r with allocator } live :=
  ⟨hok.protectable, hok.bounded, hok.inside, hok.block, hok.apart, hok.used, halloc⟩

/-- A new block of the region. -/
theorem RegionOk.addBlock (hok : RegionOk Live r live) {b : Area} (hblock : b.IsBlock build)
    (hinside : b.Inside r.area) (hapart : ∀ c ∈ live, c.Apart b)
    {allocator : SecMemAllocatorWrapper RTAlloc (AppAlloc build H)}
    (halloc : AllocatorOk Live { r with allocator } (b :: live)) :
    RegionOk Live { r with isUsed := true, allocator } (b :: live) where
  protectable := hok.protectable
  bounded := hok.bounded
  inside := List.forall_mem_cons.mpr ⟨hinside, hok.inside⟩
  block := List.forall_mem_cons.mpr ⟨hblock, hok.block⟩
  apart := List.pairwise_cons.mpr ⟨fun c hc => (hapart c hc).symm, hok.apart⟩
  used := by simp
  allocator := halloc

/-- The region without its last block. -/
theorem RegionOk.reset (hok : RegionOk Live r live) :
    RegionOk Live ({ r with isUsed := false, allocator := .general } : EnclaveRegion build H) []
    where
  protectable := hok.protectable
  bounded := hok.bounded
  inside := by simp
  block := by simp
  apart := .nil
  used := by simp
  allocator := rfl

end Region

/-! ## Allocation and release in one region -/

section Calls

variable {build : Build} {H : Type} [BuddyHeap H] {Live : H → Area → List Area → Prop}
  (hheap : HeapContract build H Live) {r r' : EnclaveRegion build H} {live : List Area}

include hheap

theorem RegionOk.specialise (hok : RegionOk Live r live) {emType : SecMemType}
    (h : r.specialise emType = .ok r') : RegionOk Live r' live := by
  have hkeep : pure r = Except.ok r' → RegionOk Live r' live := fun heq =>
    Checked.pure_eq_ok_iff.mp heq ▸ hok
  simp only [SecMemRegion.specialise] at h
  cases hcase : r.allocator with
  | general =>
    have hlive : live = [] := by simpa only [AllocatorOk, hcase] using hok.allocator
    rw [hcase] at h
    cases emType with
    | runtime =>
      simp only [SecMemAllocator.init, pure_bind, Checked.pure_eq_ok_iff] at h
      subst h
      exact hok.setAllocator ⟨rfl, rfl, Or.inl ⟨hlive, Or.inr rfl⟩⟩
    | application =>
      simp only [SecMemAllocator.init, SecMemAllocator.new, Checked.bind_eq_ok_iff,
        Checked.pure_eq_ok_iff] at h
      obtain ⟨_, ⟨buddy, hinit, rfl⟩, rfl⟩ := h
      apply hok.setAllocator
      rw [hlive]
      exact hheap.init hok.protectable hok.bounded hinit
    | none => exact hkeep h
    | general => exact hkeep h
  | none => rw [hcase] at h; exact hkeep h
  | runtime a => rw [hcase] at h; exact hkeep h
  | application a => rw [hcase] at h; exact hkeep h

/-- The blocks of a region after an attempt to allocate in it. -/
def SecMemRegion.Attempt.blocks (live : List Area) : SecMemRegion.Attempt → List Area
  | .found ptr len => ⟨ptr, len⟩ :: live
  | .noLayout => live
  | .refused _ => live

omit hheap [BuddyHeap H] in
theorem RegionOk.pure_attempt (hok : RegionOk Live r live) {attempt tried : SecMemRegion.Attempt}
    (htried : tried.blocks live = live)
    (h : (pure (tried, r) : Except Panic _) = .ok (attempt, r')) :
    RegionOk Live r' (attempt.blocks live) := by
  simp only [Checked.pure_eq_ok_iff, Prod.mk.injEq] at h
  obtain ⟨rfl, rfl⟩ := h
  rw [htried]
  exact hok

omit hheap in
theorem RegionOk.tryAlloc_runtime (hok : RegionOk Live r live) {a : RTAlloc}
    (hcase : r.allocator = .runtime a) {expectLen : Nat} {attempt : SecMemRegion.Attempt}
    (h : r.tryAlloc build .runtime expectLen = .ok (attempt, r')) :
    RegionOk Live r' (attempt.blocks live) := by
  have hallocator := hok.allocator
  simp only [AllocatorOk, hcase] at hallocator
  obtain ⟨haddr, htotal, hlen⟩ := hallocator
  simp only [SecMemRegion.tryAlloc, hcase, SecMemAllocator.available, pure_bind] at h
  split at h
  · split at h
    · exact hok.pure_attempt rfl h
    next layout hlayout =>
      obtain ⟨⟨k, hk⟩, -, rfl⟩ := Layout.fromSizeAlign_eq_some_iff.mp hlayout
      -- The region has memory left, so nothing of it is allocated.
      have hpos : a.len ≠ 0 := hk ▸ (Nat.two_pow_pos k).ne'
      obtain ⟨rfl, hwhole⟩ : live = [] ∧ a.len = r.len := by
        rcases hlen with ⟨hlive, hzero | hlen⟩ | ⟨-, hzero⟩
        · exact absurd hzero hpos
        · exact ⟨hlive, hlen⟩
        · exact absurd hzero hpos
      simp only [SecMemAllocator.alloc, lt_irrefl, if_false, pure_bind] at h
      by_cases hnull : a.addr = 0
      · simp only [RTAlloc.nonNull, if_pos hnull, Checked.pure_eq_ok_iff, Prod.mk.injEq] at h
        obtain ⟨rfl, rfl⟩ := h
        exact hok.setAllocator ⟨haddr, htotal, Or.inl ⟨rfl, Or.inl rfl⟩⟩
      · simp only [RTAlloc.nonNull, if_neg hnull, Checked.pure_eq_ok_iff, Prod.mk.injEq] at h
        obtain ⟨rfl, rfl⟩ := h
        have harea : (⟨a.addr, a.len⟩ : Area) = r.area := by rw [haddr, hwhole]; rfl
        apply hok.addBlock
        · exact ⟨hnull, hlayout⟩
        · rw [harea]
          exact ⟨le_rfl, le_rfl⟩
        · simp
        · exact ⟨haddr, htotal, Or.inr ⟨by rw [harea]; rfl, rfl⟩⟩
  · exact hok.pure_attempt rfl h

theorem RegionOk.tryAlloc_application (hok : RegionOk Live r live) {a : AppAlloc build H}
    (hcase : r.allocator = .application a) {expectLen : Nat} {attempt : SecMemRegion.Attempt}
    (h : r.tryAlloc build .application expectLen = .ok (attempt, r')) :
    RegionOk Live r' (attempt.blocks live) := by
  have hallocator := hok.allocator
  simp only [AllocatorOk, hcase] at hallocator
  simp only [SecMemRegion.tryAlloc, hcase] at h
  obtain ⟨available, -, h⟩ := Checked.bind_eq_ok_iff.mp h
  split at h
  · split at h
    · exact hok.pure_attempt rfl h
    next layout hlayout =>
      obtain ⟨⟨k, hk⟩, -, rfl⟩ := Layout.fromSizeAlign_eq_some_iff.mp hlayout
      have hpos : 0 < expectLen := hk ▸ Nat.two_pow_pos k
      simp only [SecMemAllocator.alloc, Checked.bind_eq_ok_iff, Checked.pure_eq_ok_iff] at h
      obtain ⟨_, ⟨⟨ptr, buddy⟩, halloc, rfl⟩, h⟩ := h
      cases ptr with
      | none =>
        simp only [Checked.pure_eq_ok_iff, Prod.mk.injEq] at h
        obtain ⟨rfl, rfl⟩ := h
        exact hok.setAllocator (hheap.alloc_none hallocator hpos halloc)
      | some ptr =>
        simp only [Checked.pure_eq_ok_iff, Prod.mk.injEq] at h
        obtain ⟨rfl, rfl⟩ := h
        obtain ⟨hnull, hinside, hapart, hlive⟩ := hheap.alloc_some hallocator hpos halloc
        exact hok.addBlock ⟨hnull, hlayout⟩ hinside hapart hlive
  · exact hok.pure_attempt rfl h

omit hheap in
/-- A region of another type refuses the request. -/
theorem SecMemRegion.tryAlloc_otherType {emType : SecMemType} {expectLen : Nat}
    (hruntime : ¬ ∃ a, r.allocator = .runtime a ∧ emType = .runtime)
    (happlication : ¬ ∃ a, r.allocator = .application a ∧ emType = .application) :
    r.tryAlloc build emType expectLen = pure (.refused expectLen, r) := by
  unfold SecMemRegion.tryAlloc
  split
  next a hcase => exact absurd ⟨a, hcase, rfl⟩ hruntime
  next a hcase => exact absurd ⟨a, hcase, rfl⟩ happlication
  · rfl

theorem RegionOk.tryAlloc (hok : RegionOk Live r live) {emType : SecMemType} {expectLen : Nat}
    {attempt : SecMemRegion.Attempt}
    (h : r.tryAlloc build emType expectLen = .ok (attempt, r')) :
    RegionOk Live r' (attempt.blocks live) := by
  by_cases hruntime : ∃ a, r.allocator = .runtime a ∧ emType = .runtime
  · obtain ⟨a, hcase, rfl⟩ := hruntime
    exact hok.tryAlloc_runtime hcase h
  by_cases happlication : ∃ a, r.allocator = .application a ∧ emType = .application
  · obtain ⟨a, hcase, rfl⟩ := happlication
    exact hok.tryAlloc_application hheap hcase h
  rw [SecMemRegion.tryAlloc_otherType hruntime happlication] at h
  exact hok.pure_attempt rfl h

/-- A block of the region can be given back to it. -/
theorem RegionOk.release (hok : RegionOk Live r live) {b : Area} (hb : b ∈ live) :
    ∃ r', r.release b.addr ⟨b.len, b.len⟩ = .ok (some r.id, r') ∧
      RegionOk Live r' (live.erase b) := by
  have hallocator := hok.allocator
  simp only [SecMemRegion.release]
  cases hcase : r.allocator with
  | none =>
    simp only [AllocatorOk, hcase] at hallocator
    simp [hallocator] at hb
  | general =>
    simp only [AllocatorOk, hcase] at hallocator
    simp [hallocator] at hb
  | runtime a =>
    simp only [AllocatorOk, hcase] at hallocator
    obtain ⟨haddr, htotal, ⟨rfl, -⟩ | ⟨rfl, -⟩⟩ := hallocator
    · simp at hb
    · obtain rfl := List.mem_singleton.mp hb
      have hptr : ¬ r.area.addr ≠ a.addr := not_not.mpr haddr.symm
      have hfull : r.area.len = a.total := htotal.symm
      simp only [SecMemAllocator.free, SecMemAllocator.available, SecMemAllocator.total,
        if_neg hptr, pure_bind, if_pos hfull]
      refine ⟨_, rfl, ?_⟩
      rw [List.erase_cons_head]
      exact hok.reset
  | application a =>
    simp only [AllocatorOk, hcase] at hallocator
    obtain ⟨buddy, hdealloc, hlive⟩ := hheap.dealloc hallocator hb
    have hle := hheap.stats_le hlive
    simp only [SecMemAllocator.free, SecMemAllocator.available, SecMemAllocator.total,
      hdealloc, Checked.ok_bind, pure_bind, Build.sub, if_pos hle]
    split
    next hempty =>
      have hnone : live.erase b = [] := (hheap.stats_zero hlive).mp (by omega)
      refine ⟨_, rfl, ?_⟩
      rw [hnone]
      exact hok.reset
    next hleft =>
      have hsome : live.erase b ≠ [] := fun hnone =>
        hleft (by rw [(hheap.stats_zero hlive).mpr hnone, Nat.sub_zero])
      refine ⟨_, rfl, hok.protectable, hok.bounded, ?_, ?_, ?_, ?_, hlive⟩
      · exact fun c hc => hok.inside c (List.mem_of_mem_erase hc)
      · exact fun c hc => hok.block c (List.mem_of_mem_erase hc)
      · exact hok.apart.sublist List.erase_sublist
      · exact iff_of_true (hok.used.mpr (List.ne_nil_of_mem hb)) hsome

end Calls

/-! ## The blocks of the manager -/

/-- The blocks after `alloc_em` has answered. -/
def grant (blocks : List Area) : Option (Nat × Nat × Nat) → List Area
  | none => blocks
  | some (ptr, len, _) => ⟨ptr, len⟩ :: blocks

section Blocks

variable {build : Build} {H : Type} [BuddyHeap H] {Live : H → Area → List Area → Prop}
  (hheap : HeapContract build H Live) {regions regions' : List (EnclaveRegion build H)}
  {lives : List (List Area)}

omit [BuddyHeap H] in
/-- A block of the manager lies in a region that is in use. -/
theorem exists_region_of_mem_flatten (hok : List.Forall₂ (RegionOk Live) regions lives) {b : Area}
    (hb : b ∈ lives.flatten) : ∃ r ∈ regions, b.Inside r.area ∧ b.IsBlock build := by
  induction hok with
  | nil => simp at hb
  | @cons r live regions lives hr _ ih =>
    rcases List.mem_append.mp hb with hb | hb
    · exact ⟨r, List.mem_cons_self, hr.inside b hb, hr.block b hb⟩
    · obtain ⟨r', hr', hinside⟩ := ih hb
      exact ⟨r', List.mem_cons_of_mem _ hr', hinside⟩

omit [BuddyHeap H] in
theorem pairwise_flatten_of_regions (hok : List.Forall₂ (RegionOk Live) regions lives)
    (hapart : (regions.map (·.area)).Pairwise Area.Apart) : lives.flatten.Pairwise Area.Apart := by
  induction hok with
  | nil => exact .nil
  | @cons r live regions lives hr hrest ih =>
    obtain ⟨hhead, htail⟩ := List.pairwise_cons.mp hapart
    rw [List.flatten_cons, List.pairwise_append]
    refine ⟨hr.apart, ih htail, fun b hb c hc => ?_⟩
    obtain ⟨s, hs, hinside, -⟩ := exists_region_of_mem_flatten hrest hc
    exact (hhead s.area (List.mem_map_of_mem hs)).mono (hr.inside b hb) hinside

omit [BuddyHeap H] in
/-- With regions apart, a region holds a block exactly when it is marked used. -/
theorem isUsed_iff_of_regions (hok : List.Forall₂ (RegionOk Live) regions lives)
    (hapart : (regions.map (·.area)).Pairwise Area.Apart) :
    ∀ r ∈ regions, r.isUsed = true ↔ ∃ b ∈ lives.flatten, b.Inside r.area := by
  induction hok with
  | nil => simp
  | @cons r live regions lives hr hrest ih =>
    obtain ⟨hhead, htail⟩ := List.pairwise_cons.mp hapart
    refine List.forall_mem_cons.mpr ⟨?_, fun s hs => ?_⟩
    · rw [hr.used]
      constructor
      · intro hlive
        obtain ⟨b, hb⟩ := List.exists_mem_of_ne_nil live hlive
        exact ⟨b, List.mem_append_left _ hb, hr.inside b hb⟩
      · rintro ⟨b, hb, hinside⟩ rfl
        obtain ⟨s, hs, hinside', hblock⟩ := exists_region_of_mem_flatten hrest hb
        exact hblock.not_inside_both hinside hinside' (hhead s.area (List.mem_map_of_mem hs))
    · rw [ih htail s hs]
      constructor
      · rintro ⟨b, hb, hinside⟩
        exact ⟨b, List.mem_append_right _ hb, hinside⟩
      · rintro ⟨b, hb, hinside⟩
        rcases List.mem_append.mp hb with hb | hb
        · exact absurd (hhead s.area (List.mem_map_of_mem hs))
            ((hr.block b hb).not_inside_both (hr.inside b hb) hinside)
        · exact ⟨b, hb, hinside⟩

include hheap

theorem allocIn_blocks {len expectLen : Nat} {emType : SecMemType}
    {found : Option (Nat × Nat × Nat)} (hok : List.Forall₂ (RegionOk Live) regions lives)
    (h : UniSecMemManager.allocIn build len emType expectLen regions = .ok (found, regions')) :
    ∃ lives', List.Forall₂ (RegionOk Live) regions' lives' ∧
      lives'.flatten.Perm (grant lives.flatten found) := by
  induction hok generalizing expectLen found regions' with
  | nil =>
    simp only [UniSecMemManager.allocIn, Checked.pure_eq_ok_iff, Prod.mk.injEq] at h
    obtain ⟨rfl, rfl⟩ := h
    exact ⟨[], .nil, .refl _⟩
  | @cons r live regions lives hr hrest ih =>
    -- The regions after one that keeps its blocks.
    have hnext : ∀ {r' : EnclaveRegion build H} {found rest' expectLen}, RegionOk Live r' live →
        UniSecMemManager.allocIn build len emType expectLen regions = .ok (found, rest') →
        ∃ lives', List.Forall₂ (RegionOk Live) (r' :: rest') lives' ∧
          lives'.flatten.Perm (grant (live :: lives).flatten found) := by
      intro r' found rest' expectLen hr' hrest'
      obtain ⟨lives', hlives', hperm⟩ := ih hrest'
      refine ⟨live :: lives', .cons hr' hlives', ?_⟩
      cases found with
      | none => exact hperm.append_left live
      | some block => exact (hperm.append_left live).trans List.perm_middle
    simp only [UniSecMemManager.allocIn] at h
    split at h
    · simp only [Checked.bind_eq_ok_iff, Checked.pure_eq_ok_iff, Prod.mk.injEq] at h
      obtain ⟨⟨_, rest'⟩, hrest', rfl, rfl⟩ := h
      exact hnext hr hrest'
    · obtain ⟨special, hspecial, h⟩ := Checked.bind_eq_ok_iff.mp h
      obtain ⟨⟨attempt, r'⟩, htry, h⟩ := Checked.bind_eq_ok_iff.mp h
      have hr' := (hr.specialise hheap hspecial).tryAlloc hheap htry
      cases attempt with
      | found ptr size =>
        simp only [Checked.pure_eq_ok_iff, Prod.mk.injEq] at h
        obtain ⟨rfl, rfl⟩ := h
        exact ⟨(⟨ptr, size⟩ :: live) :: lives, .cons hr' hrest, .refl _⟩
      | noLayout =>
        simp only [Checked.pure_eq_ok_iff, Prod.mk.injEq] at h
        obtain ⟨rfl, rfl⟩ := h
        exact ⟨live :: lives, .cons hr' hrest, .refl _⟩
      | refused size =>
        simp only [Checked.bind_eq_ok_iff, Checked.pure_eq_ok_iff, Prod.mk.injEq] at h
        obtain ⟨⟨_, rest'⟩, hrest', rfl, rfl⟩ := h
        exact hnext hr' hrest'

/-- A block is found in its own region and given back there. -/
theorem freeIn_blocks {b : Area} (hok : List.Forall₂ (RegionOk Live) regions lives)
    (hapart : (regions.map (·.area)).Pairwise Area.Apart) (hb : b ∈ lives.flatten) :
    ∃ id regions' lives',
      UniSecMemManager.freeIn build b.addr b.len ⟨b.len, b.len⟩ regions = .ok (some id, regions') ∧
      List.Forall₂ (RegionOk Live) regions' lives' ∧
      lives'.flatten = lives.flatten.erase b := by
  induction hok with
  | nil => simp at hb
  | @cons r live regions lives hr hrest ih =>
    obtain ⟨hhead, htail⟩ := List.pairwise_cons.mp hapart
    simp only [UniSecMemManager.freeIn, SecMemRegion.isMemContained_eq_ok hr.bounded,
      Checked.ok_bind]
    by_cases hlive : b ∈ live
    · obtain ⟨r', hrelease, hr'⟩ := hr.release hheap hlive
      refine ⟨r.id, r' :: regions, live.erase b :: lives, ?_, .cons hr' hrest, ?_⟩
      · have hinside : (⟨b.addr, b.len⟩ : Area).Inside r.area := hr.inside b hlive
        simp only [hinside, decide_true, if_true, hrelease, Checked.ok_bind]
        rfl
      · rw [List.flatten_cons, List.flatten_cons, List.erase_append_left _ hlive]
    · have hmem : b ∈ lives.flatten := (List.mem_append.mp hb).resolve_left hlive
      obtain ⟨s, hs, hinside, hblock⟩ := exists_region_of_mem_flatten hrest hmem
      have houtside : ¬ (⟨b.addr, b.len⟩ : Area).Inside r.area := fun hr =>
        hblock.not_inside_both hr hinside (hhead s.area (List.mem_map_of_mem hs))
      obtain ⟨id, regions', lives', hfree, hok', hflatten⟩ := ih htail hmem
      refine ⟨id, r :: regions', live :: lives', ?_, .cons hr hok', ?_⟩
      · simp only [houtside, decide_false, Bool.false_eq_true, if_false, hfree, Checked.ok_bind]
        rfl
      · rw [List.flatten_cons, List.flatten_cons, hflatten, List.erase_append_right _ hlive]

end Blocks

/-! ## Sessions -/

/-- A manager together with the blocks that its clients hold. -/
structure Session (build : Build) (H : Type) where
  manager : UniSecMemManager RTAlloc (AppAlloc build H)
  outstanding : List Area

namespace Session

variable {build : Build} {H : Type}

def new : Session build H := ⟨.new, []⟩

/-- A client gives back only a block that it holds. -/
def Allowed (s : Session build H) : Request build → Prop
  | .freeEm addr len => ⟨addr.toNat, len.toNat⟩ ∈ s.outstanding
  | _ => True

/-- The blocks that the clients hold after a call. -/
def held (outstanding : List Area) : Request build → Reply → List Area
  | .allocEm _ _, .block found => grant outstanding found
  | .freeEm addr len, _ => outstanding.erase ⟨addr.toNat, len.toNat⟩
  | _, _ => outstanding

section

variable [BuddyHeap H]

/-- A call after which the regions share no address and end below the top of the
address space. -/
def Step (s : Session build H) (request : Request build) (s' : Session build H) : Prop :=
  s.Allowed request ∧ ∃ reply, s.manager.call request = .ok (reply, s'.manager) ∧
    AreaInv build s'.manager ∧ s'.outstanding = held s.outstanding request reply

end

/-- The blocks that the clients hold are those allocated in the regions. -/
structure Ledger (Live : H → Area → List Area → Prop) (s : Session build H) : Prop where
  slots : SlotInv s.manager
  areas : AreaInv build s.manager
  blocks : ∃ lives, List.Forall₂ (RegionOk Live) s.manager.allocRegions lives ∧
    s.outstanding.Perm lives.flatten

variable {Live : H → Area → List Area → Prop} {s s' : Session build H}

theorem Ledger.of_new : Ledger Live (new : Session build H) where
  slots := .of_new
  areas := ⟨.nil, by simp [new, UniSecMemManager.new]⟩
  blocks := ⟨[], .nil, .refl _⟩

/-- An unused region has no block. -/
theorem reclaim_blocks {regions : List (EnclaveRegion build H)} {r : EnclaveRegion build H}
    {rest : List (EnclaveRegion build H)} {lives : List (List Area)}
    (hok : List.Forall₂ (RegionOk Live) regions lives) (hperm : regions.Perm (r :: rest))
    (hunused : r.isUsed = false) :
    ∃ lives', List.Forall₂ (RegionOk Live) rest lives' ∧ lives.flatten.Perm lives'.flatten := by
  obtain ⟨all, hall, hlives⟩ := List.perm_comp_forall₂ hperm.symm hok
  cases hall with
  | @cons _ live _ lives' hr hrest =>
    have hempty : live = [] := by
      by_contra hlive
      rw [hr.used.mpr hlive] at hunused
      cases hunused
    subst hempty
    exact ⟨lives', hrest, hlives.flatten.symm⟩

/-- A call that does not look at the memory of the regions leaves the blocks. -/
theorem Ledger.managed [BuddyHeap H] {request : Request build} {reply : Reply} (hinv : Ledger Live s)
    (hcall : s.manager.call request = .ok (reply, s'.manager))
    (hmanages : UniSecMemManager.ManagesRegions request)
    (hareas : AreaInv build s'.manager) :
    ∃ lives, List.Forall₂ (RegionOk Live) s'.manager.allocRegions lives ∧
      s.outstanding.Perm lives.flatten := by
  obtain ⟨lives, hok, hperm⟩ := hinv.blocks
  rcases UniSecMemManager.call_regions hinv.slots hcall hmanages with
    hsame | ⟨addr, len, id, slot, hprotectable, hnew⟩ | ⟨region, hunused, hregions⟩
  · rw [hsame]
    exact ⟨lives, hok, hperm⟩
  · have hstop : addr + len < build.xlen.words := by
      refine hareas.bounded (.new addr len id slot) ?_
      simp [hnew]
    have hflatten : (lives ++ [[]]).flatten = lives.flatten := by simp
    refine ⟨lives ++ [[]], ?_, by rw [hflatten]; exact hperm⟩
    rw [hnew]
    exact List.rel_append hok (.cons (.of_new hprotectable hstop) .nil)
  · obtain ⟨lives', hok', hflatten⟩ := reclaim_blocks hok hregions hunused
    exact ⟨lives', hok', hperm.trans hflatten⟩

theorem Ledger.step [BuddyHeap H] (hheap : HeapContract build H Live) {request : Request build}
    (h : s.Step request s') (hinv : Ledger Live s) : Ledger Live s' := by
  obtain ⟨hallowed, reply, hcall, hareas, houtstanding⟩ := h
  obtain ⟨lives, hok, hperm⟩ := hinv.blocks
  have hslots : SlotInv s'.manager :=
    hinv.slots.effect (UniSecMemManager.Step.effect ⟨reply, hcall⟩ hinv.slots)
  refine ⟨hslots, hareas, ?_⟩
  rw [houtstanding]
  cases request with
  | init smAddr smLen => exact hinv.managed hcall trivial hareas
  | extend addr len => exact hinv.managed hcall trivial hareas
  | reclaim => exact hinv.managed hcall trivial hareas
  | allocEm len emType =>
    simp only [UniSecMemManager.call, UniSecMemManager.allocEm, Checked.bind_eq_ok_iff,
      Checked.pure_eq_ok_iff, Prod.mk.injEq] at hcall
    obtain ⟨⟨_, _⟩, ⟨expectLen, -, ⟨found, regions⟩, hloop, rfl, rfl⟩, rfl, hm'⟩ := hcall
    obtain ⟨lives', hok', hflatten⟩ := allocIn_blocks hheap hok hloop
    refine ⟨lives', ?_, ?_⟩
    · rw [← hm']
      exact hok'
    · refine List.Perm.trans ?_ hflatten.symm
      cases found with
      | none => exact hperm
      | some block => exact hperm.cons _
  | freeEm addr len =>
    have hmem : (⟨addr.toNat, len.toNat⟩ : Area) ∈ lives.flatten := hperm.mem_iff.mp hallowed
    obtain ⟨_, _, -, hblock⟩ := exists_region_of_mem_flatten hok hmem
    obtain ⟨id, regions, lives', hfree, hok', hflatten⟩ :=
      freeIn_blocks hheap hok hinv.areas.apart hmem
    have hptr : RTAlloc.nonNull addr.toNat = some addr.toNat := if_neg hblock.1
    simp only [UniSecMemManager.call, UniSecMemManager.freeEm,
      hblock.nextPowerOfTwo_eq_ok, hblock.2, hptr, hfree, Checked.ok_bind, pure_bind,
      Checked.pure_eq_ok_iff, Prod.mk.injEq] at hcall
    obtain ⟨-, hm'⟩ := hcall
    refine ⟨lives', ?_, ?_⟩
    · rw [← hm']
      exact hok'
    · rw [hflatten]
      exact hperm.erase _

/-- What the clients of the manager can rely on. -/
structure Accounted (s : Session build H) : Prop where
  apart : s.outstanding.Pairwise Area.Apart
  placed : ∀ b ∈ s.outstanding, ∃! r, r ∈ s.manager.allocRegions ∧ b.Inside r.area
  used : ∀ r ∈ s.manager.allocRegions,
    r.isUsed = true ↔ ∃ b ∈ s.outstanding, b.Inside r.area
  kept : ∀ reply m', s.manager.reclaim = .ok (reply, m') → ∀ r ∈ s.manager.allocRegions,
    (∃ b ∈ s.outstanding, b.Inside r.area) → r ∈ m'.allocRegions
  drained : s.outstanding = [] → ∃ areas m',
    Run (fun m area m' => m.reclaim = .ok (some area, m')) s.manager areas m' ∧
      m'.allocRegions = [] ∧ areas.Perm (s.manager.allocRegions.map fun r => (r.addr, r.len))

/-- Unused regions leave one after the other. -/
theorem reclaim_all {AR AA : Type} {m : UniSecMemManager AR AA} (hinv : SlotInv m)
    (hunused : ∀ r ∈ m.allocRegions, r.isUsed = false) :
    ∃ areas m', Run (fun m area m' => m.reclaim = .ok (some area, m')) m areas m' ∧
      m'.allocRegions = [] ∧ areas.Perm (m.allocRegions.map fun r => (r.addr, r.len)) := by
  induction hcount : m.allocRegions.length generalizing m with
  | zero =>
    have hnil := List.length_eq_zero_iff.mp hcount
    exact ⟨[], m, .nil m, hnil, by rw [hnil]; exact .refl _⟩
  | succ n ih =>
    obtain ⟨r, hr⟩ := List.exists_mem_of_length_pos (by omega : 0 < m.allocRegions.length)
    obtain ⟨reply, m₁, hreclaim, hreply⟩ := UniSecMemManager.reclaim_answers hinv
    obtain ⟨rfl, -, -⟩ | ⟨region, hw, -, rfl, hperm, hslot, hprotector, -⟩ :=
      UniSecMemManager.reclaim_eq_ok hinv hreclaim
    · exact absurd rfl (hreply ⟨r, hr, hunused r hr⟩)
    · have hinv₁ : SlotInv m₁ := hinv.of_reclaim hperm hslot hprotector
      obtain ⟨areas, m', hrun, hnil, hareas⟩ := ih hinv₁
        (fun r hr => hunused r (hperm.mem_iff.mpr (List.mem_cons_of_mem _ hr)))
        (by have := hperm.length_eq; simp only [List.length_cons] at this; omega)
      refine ⟨(region.addr, region.len) :: areas, m', .cons hreclaim hrun, hnil, ?_⟩
      have hmap := hperm.map fun r : SecMemRegion AR AA => (r.addr, r.len)
      exact (hareas.cons _).trans hmap.symm

theorem Ledger.accounted (hinv : Ledger Live s) : s.Accounted := by
  obtain ⟨lives, hok, hperm⟩ := hinv.blocks
  have hused : ∀ r ∈ s.manager.allocRegions,
      r.isUsed = true ↔ ∃ b ∈ s.outstanding, b.Inside r.area := by
    intro r hr
    simp only [isUsed_iff_of_regions hok hinv.areas.apart r hr, hperm.mem_iff]
  refine ⟨?_, ?_, hused, ?_, ?_⟩
  · exact (hperm.pairwise_iff Area.Apart.symm).mpr (pairwise_flatten_of_regions hok hinv.areas.apart)
  · intro b hb
    obtain ⟨r, hr, hinside, hblock⟩ := exists_region_of_mem_flatten hok (hperm.mem_iff.mp hb)
    refine ⟨r, ⟨hr, hinside⟩, ?_⟩
    rintro r' ⟨hr', hinside'⟩
    by_contra hne
    have hapart := Area.apart_of_pairwise (List.pairwise_map.mp hinv.areas.apart) hr' hr hne
    exact hblock.not_inside_both hinside' hinside hapart
  · intro reply m' hreclaim r hr hholds
    obtain ⟨-, rfl, -⟩ | ⟨region, hw, hunused, -, hregions, -, -, -⟩ :=
      UniSecMemManager.reclaim_eq_ok hinv.slots hreclaim
    · exact hr
    · rcases List.mem_cons.mp (hregions.mem_iff.mp hr) with rfl | hrest
      · rw [(hused r hr).mpr hholds] at hunused
        cases hunused
      · exact hrest
  · intro hnone
    refine reclaim_all hinv.slots fun r hr => ?_
    rw [← Bool.not_eq_true, hused r hr, hnone]
    simp

/-- Over every run, the blocks that `alloc_em` has handed out are exclusive and
accounted for. -/
theorem enclave_memory_accounted [BuddyHeap H] (hheap : HeapContract build H Live)
    {requests : List (Request build)} (hrun : Run Step new requests s) : s.Accounted :=
  (hrun.invariant (P := Ledger Live) (fun _ _ _ hinv hstep => hinv.step hheap hstep)
    .of_new).accounted

end Session

/-! ## A heap that takes the first place -/

/-- A heap that gives each block the first place of its area that is free for it. The buddy
allocator also starts at the bottom: it uses the lower half of a block that it splits. -/
structure FirstFit where
  area : Area
  live : List Area
  deriving DecidableEq, Repr

namespace FirstFit

/-- The bytes that are allocated. -/
def taken (live : List Area) : Nat := (live.map Area.len).sum

/-- The blocks of a size that the area can be cut into. -/
def places (area : Area) (size : Nat) : List Area :=
  (List.range (area.len / size)).map fun i => ⟨area.addr + i * size, size⟩

/-- The first free place, while there is room for it at all. -/
def place (h : FirstFit) (size : Nat) : Option Area :=
  if taken h.live + size ≤ h.area.len then
    (places h.area size).find? fun a => decide (a.addr ≠ 0 ∧ ∀ b ∈ h.live, b.Apart a)
  else none

/-- What is left when `size` bytes at `ptr` are given back: a block goes, or its beginning does. -/
def giveBack (live : List Area) (ptr size : Nat) : List Area :=
  if ⟨ptr, size⟩ ∈ live then live.erase ⟨ptr, size⟩
  else
    match live.find? fun b => decide (b.addr = ptr ∧ size < b.len) with
    | some b => ⟨ptr + size, b.len - size⟩ :: live.erase b
    | none => live

instance : BuddyHeap FirstFit where
  new := ⟨⟨0, 0⟩, []⟩
  init _ start size := pure ⟨⟨start, size⟩, []⟩
  alloc h layout :=
    match h.place layout.size with
    | some block => pure (some block.addr, { h with live := block :: h.live })
    | none => pure (none, h)
  dealloc h ptr layout := pure { h with live := giveBack h.live ptr layout.size }
  statsTotalBytes h := h.area.len
  statsAllocActual h := taken h.live

/-- The heap manages the area and has allocated these blocks. -/
structure Live (h : FirstFit) (heap : Area) (live : List Area) : Prop where
  manages : h.area = heap
  allocated : h.live = live
  pos : ∀ b ∈ live, 0 < b.len
  apart : live.Pairwise Area.Apart
  room : taken live ≤ heap.len

variable {h h' : FirstFit} {heap block : Area} {live : List Area} {ptr size : Nat}

theorem place_eq_some (hplace : h.place size = some block) :
    block.len = size ∧ block.addr ≠ 0 ∧ block.Inside h.area ∧ (∀ b ∈ h.live, b.Apart block) ∧
      taken h.live + size ≤ h.area.len := by
  unfold place at hplace
  split at hplace
  next hroom =>
    have hfree := List.find?_some hplace
    rw [decide_eq_true_eq] at hfree
    obtain ⟨i, hi, rfl⟩ := List.mem_map.mp (List.mem_of_find?_eq_some hplace)
    refine ⟨rfl, hfree.1, ⟨Nat.le_add_right _ _, ?_⟩, hfree.2, hroom⟩
    have hlast : (i + 1) * size ≤ h.area.len :=
      (Nat.mul_le_mul_right size (List.mem_range.mp hi)).trans (Nat.div_mul_le_self _ _)
    rw [Nat.add_one_mul] at hlast
    simp only [Area.stop]
    omega
  next => cases hplace

theorem taken_cons (block : Area) (live : List Area) :
    taken (block :: live) = taken live + block.len := by
  rw [taken, List.map_cons, List.sum_cons, Nat.add_comm]
  rfl

theorem taken_erase (hblock : block ∈ live) :
    taken (live.erase block) + block.len = taken live := by
  rw [← taken_cons]
  exact ((List.perm_cons_erase hblock).map Area.len).sum_eq.symm

theorem Live.erase (hlive : Live h heap live) (hblock : block ∈ live) :
    Live { h with live := live.erase block } heap (live.erase block) where
  manages := hlive.manages
  allocated := rfl
  pos b hb := hlive.pos b (List.mem_of_mem_erase hb)
  apart := hlive.apart.sublist List.erase_sublist
  room := by
    have htaken := taken_erase hblock
    have hroom := hlive.room
    omega

/-- A block is known by its address. -/
theorem Live.eq_of_addr (hlive : Live h heap live) {b : Area} (hblock : block ∈ live) (hb : b ∈ live)
    (haddr : b.addr = block.addr) : b = block := by
  by_contra hne
  have hapart : b.Apart block := Area.apart_of_pairwise hlive.apart hb hblock hne
  have hpos := hlive.pos b hb
  have hpos' := hlive.pos block hblock
  simp only [Area.Apart, Area.stop] at hapart
  omega

theorem contract (build : Build) : HeapContract build FirstFit Live where
  init := by
    rintro heap h - - hinit
    cases hinit
    exact ⟨rfl, rfl, List.forall_mem_nil _, .nil, Nat.zero_le _⟩
  alloc_some := by
    intro h h' heap live size ptr hlive hpos halloc
    obtain ⟨rfl, rfl⟩ := And.intro hlive.manages hlive.allocated
    simp only [BuddyHeap.alloc] at halloc
    split at halloc
    next block hplace =>
      obtain ⟨rfl, hnull, hinside, hapart, hroom⟩ := place_eq_some hplace
      simp only [Checked.pure_eq_ok_iff, Prod.mk.injEq, Option.some.injEq] at halloc
      obtain ⟨rfl, rfl⟩ := halloc
      refine ⟨hnull, hinside, hapart, rfl, rfl, ?_, ?_, ?_⟩
      · exact List.forall_mem_cons.mpr ⟨hpos, hlive.pos⟩
      · exact List.pairwise_cons.mpr ⟨fun b hb => (hapart b hb).symm, hlive.apart⟩
      · rw [taken_cons]
        exact hroom
    next => cases halloc
  alloc_none := by
    intro h h' heap live size hlive _ halloc
    simp only [BuddyHeap.alloc] at halloc
    split at halloc
    · cases halloc
    · cases halloc
      exact hlive
  dealloc := by
    intro h heap live block hlive hblock
    obtain rfl := hlive.allocated
    refine ⟨_, rfl, ?_⟩
    rw [giveBack, if_pos hblock]
    exact hlive.erase hblock
  stats_le := by
    rintro h heap live ⟨rfl, rfl, -, -, hroom⟩
    exact hroom
  stats_zero := by
    rintro h heap live ⟨-, rfl, hpos, -, -⟩
    simp only [BuddyHeap.statsAllocActual]
    refine ⟨fun hzero => ?_, fun hnil => by rw [hnil]; rfl⟩
    by_contra hne
    obtain ⟨b, hb⟩ := List.exists_mem_of_ne_nil h.live hne
    have htaken := taken_erase hb
    have hlen := hpos b hb
    omega

end FirstFit

/-! ## A run with two regions -/

namespace Session

variable {build : Build} {H : Type} [BuddyHeap H]

instance (s : Session build H) : (request : Request build) → Decidable (s.Allowed request)
  | .freeEm addr len => inferInstanceAs (Decidable (⟨addr.toNat, len.toNat⟩ ∈ s.outstanding))
  | .init _ _ | .extend _ _ | .reclaim | .allocEm _ _ => isTrue trivial

instance {AR AA : Type} (build : Build) (m : UniSecMemManager AR AA) : Decidable (AreaInv build m) :=
  decidable_of_iff
    ((m.allocRegions.map (·.area)).Pairwise Area.Apart ∧
      ∀ r ∈ m.allocRegions, r.area.stop < build.xlen.words)
    ⟨fun h => ⟨h.1, h.2⟩, fun h => ⟨h.1, h.2⟩⟩

/-- The session after a call, where there is one. -/
def next? (s : Session build H) (request : Request build) : Option (Session build H) :=
  match s.manager.call request with
  | .ok (reply, manager) =>
    if s.Allowed request ∧ AreaInv build manager then
      some ⟨manager, held s.outstanding request reply⟩
    else none
  | .error _ => none

theorem step_of_next? {s s' : Session build H} {request : Request build}
    (h : s.next? request = some s') : s.Step request s' := by
  unfold next? at h
  split at h
  next reply manager hcall =>
    rw [Option.ite_none_right_eq_some] at h
    obtain ⟨⟨hallowed, hareas⟩, rfl⟩ := And.imp_right Option.some.inj h
    exact ⟨hallowed, reply, hcall, hareas, rfl⟩
  next => cases h

/-- Two applications share one region and a runtime takes another one. The first application and
the runtime give their blocks back, the region of the runtime is reclaimed, and a third application
gets a part of what the first one had. -/
def sharedRegion : List (Request ⟨.rv64, true⟩) :=
  [.extend 0x80000000#64 0x4000#64, .extend 0x90000000#64 0x1000#64,
    .allocEm 0x1000#64 .application, .allocEm 0x1000#64 .application, .allocEm 0x1000#64 .runtime,
    .freeEm 0x80000000#64 0x1000#64, .freeEm 0x90000000#64 0x1000#64, .reclaim,
    .allocEm 0x800#64 .application]

theorem enclave_memory_accounted_shared_region : ∃ s : Session ⟨.rv64, true⟩ FirstFit,
    Run Step new sharedRegion s ∧ s.outstanding = [⟨0x80000000, 0x800⟩, ⟨0x80001000, 0x1000⟩] ∧
      s.manager.allocRegions.map SecMemRegion.area = [⟨0x80000000, 0x4000⟩] ∧ s.Accounted := by
  obtain ⟨s, hexec, houtstanding, hareas⟩ : ∃ s : Session ⟨.rv64, true⟩ FirstFit,
      sharedRegion.foldlM next? new = some s ∧
        s.outstanding = [⟨0x80000000, 0x800⟩, ⟨0x80001000, 0x1000⟩] ∧
        s.manager.allocRegions.map SecMemRegion.area = [⟨0x80000000, 0x4000⟩] := by
    have hrun : (sharedRegion.foldlM next? (new : Session ⟨.rv64, true⟩ FirstFit)).any fun s =>
        decide (s.outstanding = [⟨0x80000000, 0x800⟩, ⟨0x80001000, 0x1000⟩] ∧
          s.manager.allocRegions.map SecMemRegion.area = [⟨0x80000000, 0x4000⟩]) := by
      decide +kernel
    obtain ⟨s, hexec, hs⟩ := (Option.any_eq_true _ _).mp hrun
    exact ⟨s, hexec, of_decide_eq_true hs⟩
  have hrun : Run Step new sharedRegion s := Run.of_foldlM (fun _ _ _ => step_of_next?) hexec
  exact ⟨s, hrun, houtstanding, hareas, enclave_memory_accounted (FirstFit.contract _) hrun⟩

end Session

end RustSbi.Smm
