import RustSbi.Lib.Provenance
import RustSbi.Smm.Memory

/-!
What enclaves leave in memory. Clients write through the blocks that `alloc_em` has
handed out, and every byte remembers the block it was written through; a block that is
given back must not be found in a later one. `free_em` zeroes as many bytes as its caller
names, and hands them back rounded up to a power of two.
-/

namespace RustSbi.Smm

open Checked (Panic)
open Provenance (Cell Clean Own Cleaner)
open Store (store)
open Transition (Run)

/-- The addresses of an area. -/
def Area.addrs (a : Area) : Set Nat := Set.Ico a.addr a.stop

/-! ## Clients with blocks -/

/-- The manager with its memory and the blocks that clients hold. A block is known by the
number of the call that returned it. -/
structure Tenancy (build : Build) (H : Type) where
  machine : Machine RTAlloc (AppAlloc build H) (Cell Nat (BitVec 8))
  blocks : List (Nat × Area)
  calls : Nat

/-- What can happen: a call of the manager, a write through a block, and a write by
something that holds none (the host, or the allocator itself). -/
inductive Action (build : Build)
  | call (request : Request build)
  | write (number addr : Nat) (byte : BitVec 8)
  | writeOther (addr : Nat) (byte : BitVec 8)

/-- The blocks that are left when the one at an address is given back. -/
def without (blocks : List (Nat × Area)) (addr : Nat) : List (Nat × Area) :=
  blocks.filter fun p => p.2.addr ≠ addr

namespace Tenancy

variable {build : Build} {H : Type}

/-- Nobody has called the manager, and nobody has written through a block. -/
def Initial (s : Tenancy build H) : Prop :=
  s.machine.manager = .new ∧ Clean s.machine.ram Set.univ ∧ s.blocks = [] ∧ s.calls = 0

/-- The blocks after a call. -/
def held (s : Tenancy build H) : Request build → Reply → List (Nat × Area)
  | .allocEm _ _, .block (some (ptr, len, _)) => (s.calls, ⟨ptr, len⟩) :: s.blocks
  | .freeEm addr _, .region (some _) => without s.blocks addr.toNat
  | _, _ => s.blocks

def Step [BuddyHeap H] (s : Tenancy build H) : Action build → Tenancy build H → Prop
  | .call request, s' => ∃ reply, s.machine.call request = .ok (reply, s'.machine) ∧
      s'.blocks = s.held request reply ∧ s'.calls = s.calls + 1
  | .write number addr byte, s' => ∃ b, (number, b) ∈ s.blocks ∧ addr ∈ b.addrs ∧
      s' = { s with machine :=
        ⟨s.machine.manager, Provenance.write s.machine.ram addr (some number) byte⟩ }
  | .writeOther addr byte, s' =>
      s' = { s with machine :=
        ⟨s.machine.manager, Provenance.write s.machine.ram addr none byte⟩ }

/-- The calls after which nothing is left: an `extend` places no region at the top of the
address space, and a `free_em` that comes to a region in use names a power of two, and in
a shared region the beginning of a block that is held. -/
def Careful (s : Tenancy build H) : Action build → Prop
  | .call (.extend addr len) => BelowTop s.machine.manager (.extend addr len)
  | .call (.freeEm addr len) => ∀ region, s.machine.manager.Finds build addr.toNat len.toNat region →
      match region.allocator with
      | .runtime _ => addr.toNat = region.addr → ∃ k, len.toNat = 2 ^ k
      | .application _ => (∃ k, len.toNat = 2 ^ k) ∧
          ∃ p ∈ s.blocks, p.2.addr = addr.toNat ∧ len.toNat ≤ p.2.len
      | _ => True
  | _ => True

/-- Freed memory is scrubbed: a call that gives memory back zeroes all that the allocator gets,
if and only if it names a power of two; and no client finds in its blocks what was written
through another one. -/
structure Scrubbed [BuddyHeap H] (s : Tenancy build H) : Prop where
  freed : ∀ addr len id m', s.machine.manager.freeEm build addr len = .ok (some id, m') →
    ((∀ (ram : Nat → Cell Nat (BitVec 8)) after,
      Machine.freeEm build ⟨s.machine.manager, ram⟩ addr len = .ok (some id, after) →
        ∀ x ∈ (⟨addr, 2 ^ Nat.clog 2 len⟩ : Area).addrs, after.ram x = 0) ↔ ∃ k, len = 2 ^ k)
  separate : ∀ p ∈ s.blocks, Own s.machine.ram p.1 p.2.addrs
  numbered : (s.blocks.map Prod.fst).Nodup

end Tenancy

/-! ## The buddy allocator -/

/-- The allocator also takes back the beginning of a block, and the rest stays allocated. -/
structure PrefixContract (build : Build) (H : Type) [BuddyHeap H]
    (Live : H → Area → List Area → Prop) : Prop extends HeapContract build H Live where
  dealloc_prefix : ∀ {h : H} {heap live} {block : Area} {size : Nat}, Live h heap live →
    block ∈ live → (∃ k, size = 2 ^ k) → size < block.len →
      ∃ h', BuddyHeap.dealloc h block.addr ⟨size, size⟩ = .ok h' ∧
        Live h' heap (⟨block.addr + size, block.len - size⟩ :: live.erase block)

/-! ## Areas as sets -/

section Areas

variable {a b c : Area} {x : Nat}

theorem Area.mem_addrs : x ∈ a.addrs ↔ a.addr ≤ x ∧ x < a.addr + a.len := Iff.rfl

theorem Area.Inside.subset (h : a.Inside b) : a.addrs ⊆ b.addrs :=
  Set.Ico_subset_Ico h.1 h.2

theorem Area.Apart.not_mem (h : a.Apart b) (hx : x ∈ a.addrs) : x ∉ b.addrs := by
  unfold Apart stop at h
  rw [mem_addrs] at hx ⊢
  omega

theorem Area.addr_mem (h : 0 < a.len) : a.addr ∈ a.addrs := by
  rw [mem_addrs]
  omega

theorem Area.Apart.not_inside (h : a.Apart b) (hpos : 0 < c.len) (hc : c.Inside a) :
    ¬ c.Inside b := fun hc' => h.not_mem (hc.subset (addr_mem hpos)) (hc'.subset (addr_mem hpos))

theorem two_pow_clog_eq_iff {len : Nat} : 2 ^ Nat.clog 2 len = len ↔ ∃ k, len = 2 ^ k := by
  constructor
  · intro h
    exact ⟨_, h.symm⟩
  · rintro ⟨k, rfl⟩
    rw [Nat.clog_pow 2 k (by decide)]

end Areas

/-! ## What a region has not handed out -/

section Region

variable {build : Build} {H : Type}

/-- Nobody holds or has written anything in the area. -/
def Deserted (ram : Nat → Cell Nat (BitVec 8)) (blocks : List (Nat × Area)) (a : Area) : Prop :=
  Clean ram a.addrs ∧ ∀ p ∈ blocks, ¬ p.2.Inside a

variable (Live : H → Area → List Area → Prop) (ram : Nat → Cell Nat (BitVec 8))
  (blocks : List (Nat × Area))

/-- What the allocator of a region can still hand out is clean. The rest of a block that was
given back in part stays allocated in a shared region. -/
def AllocatorClean (r : EnclaveRegion build H) : Prop :=
  match r.allocator with
  | .none => Deserted ram blocks r.area
  | .general => Deserted ram blocks r.area
  | .runtime a => a.addr = r.addr ∧ a.total = r.len ∧ a.len ≤ r.len ∧
      Clean ram (⟨a.addr, a.len⟩ : Area).addrs ∧
      ∀ p ∈ blocks, p.2.Inside r.area → p.2.addr = r.addr ∧ a.len = 0
  | .application a => ∃ live, Live a.buddy r.area live ∧
      (∀ p ∈ blocks, p.2.Inside r.area → p.2 ∈ live) ∧
      Clean ram {x | x ∈ r.area.addrs ∧ ∀ b ∈ live, x ∉ b.addrs}

structure RegionClean (r : EnclaveRegion build H) : Prop where
  unused : r.isUsed = false → Deserted ram blocks r.area
  allocator : AllocatorClean Live ram blocks r

variable {Live ram blocks} {ram' : Nat → Cell Nat (BitVec 8)} {blocks' : List (Nat × Area)}
  {r r' : EnclaveRegion build H}

theorem Deserted.mono {a : Area} (h : Deserted ram blocks a)
    (hclean : ∀ x ∈ a.addrs, (ram x).writer = none →
      (ram' x).writer = none ∨ ∃ p ∈ blocks, p.2.Inside a ∧ x ∈ p.2.addrs)
    (hblocks : ∀ p ∈ blocks', p.2.Inside a → p ∈ blocks) : Deserted ram' blocks' a := by
  refine ⟨fun x hx => ?_, fun p hp hinside => h.2 p (hblocks p hp hinside) hinside⟩
  rcases hclean x hx (h.1 x hx) with hnone | ⟨p, hp, hinside, -⟩
  · exact hnone
  · exact absurd hinside (h.2 p hp)

/-- A region stays clean when bytes only become dirty in blocks that are held, and no block is
added to it. -/
theorem RegionClean.mono (h : RegionClean Live ram blocks r)
    (hclean : ∀ x ∈ r.area.addrs, (ram x).writer = none →
      (ram' x).writer = none ∨ ∃ p ∈ blocks, p.2.Inside r.area ∧ x ∈ p.2.addrs)
    (hblocks : ∀ p ∈ blocks', p.2.Inside r.area → p ∈ blocks) : RegionClean Live ram' blocks' r := by
  refine ⟨fun hunused => (h.unused hunused).mono hclean hblocks, ?_⟩
  have hallocator := h.allocator
  unfold AllocatorClean at hallocator ⊢
  cases hcase : r.allocator with
  | none =>
    rw [hcase] at hallocator
    exact hallocator.mono hclean hblocks
  | general =>
    rw [hcase] at hallocator
    exact hallocator.mono hclean hblocks
  | runtime a =>
    rw [hcase] at hallocator
    obtain ⟨haddr, htotal, hlen, hfree, htaken⟩ := hallocator
    refine ⟨haddr, htotal, hlen, fun x hx => ?_,
      fun p hp hinside => htaken p (hblocks p hp hinside) hinside⟩
    rw [Area.mem_addrs] at hx
    have hx' : x ∈ r.area.addrs := by
      rw [Area.mem_addrs]
      simp only [SecMemRegion.area]
      simp only at hx
      omega
    rcases hclean x hx' (hfree x hx) with hnone | ⟨p, hp, hinside, -⟩
    · exact hnone
    · have := (htaken p hp hinside).2
      simp only at hx
      omega
  | application a =>
    rw [hcase] at hallocator
    obtain ⟨live, hlive, hheld, hfree⟩ := hallocator
    refine ⟨live, hlive, fun p hp hinside => hheld p (hblocks p hp hinside) hinside, fun x hx => ?_⟩
    rcases hclean x hx.1 (hfree x hx) with hnone | ⟨p, hp, hinside, hxp⟩
    · exact hnone
    · exact absurd hxp (hx.2 p.2 (hheld p hp hinside))

theorem RegionClean.cleaner (h : RegionClean Live ram blocks r) (hcleaner : Cleaner ram ram')
    (hblocks : ∀ p ∈ blocks', p ∈ blocks) : RegionClean Live ram' blocks' r :=
  h.mono (fun _ _ hx => .inl (hcleaner.writer_eq_none hx)) fun p hp _ => hblocks p hp

theorem RegionClean.addOther (h : RegionClean Live ram blocks r) {a b : Area} (hpos : 0 < b.len)
    (hinside : b.Inside a) (hapart : a.Apart r.area) (number : Nat) :
    RegionClean Live ram ((number, b) :: blocks) r := by
  refine h.mono (fun _ _ hx => .inl hx) fun p hp hp' => ?_
  rcases List.mem_cons.mp hp with rfl | hp
  · exact absurd hp' (hapart.not_inside hpos hinside)
  · exact hp

end Region

/-! ## Allocation -/

section Alloc

variable {build : Build} {H : Type} {Live : H → Area → List Area → Prop}
  {ram : Nat → Cell Nat (BitVec 8)} {blocks : List (Nat × Area)} {r r' : EnclaveRegion build H}

/-- A block that can be handed out of an area: it is clean, and apart from what is held there. -/
structure Fresh (ram : Nat → Cell Nat (BitVec 8)) (blocks : List (Nat × Area)) (a b : Area) :
    Prop where
  pos : 0 < b.len
  inside : b.Inside a
  clean : Clean ram b.addrs
  apart : ∀ p ∈ blocks, p.2.Inside a → p.2.Apart b

/-- A region after an attempt to allocate in it. -/
def AttemptClean (Live : H → Area → List Area → Prop) (ram : Nat → Cell Nat (BitVec 8))
    (blocks : List (Nat × Area)) (r' : EnclaveRegion build H) : SecMemRegion.Attempt → Prop
  | .found ptr len => Fresh ram blocks r'.area ⟨ptr, len⟩ ∧
      ∀ number, RegionClean Live ram ((number, ⟨ptr, len⟩) :: blocks) r'
  | .noLayout => RegionClean Live ram blocks r'
  | .refused _ => RegionClean Live ram blocks r'

theorem RegionClean.setAllocator (h : RegionClean Live ram blocks r)
    {allocator : SecMemAllocatorWrapper RTAlloc (AppAlloc build H)}
    (halloc : AllocatorClean Live ram blocks { r with allocator }) :
    RegionClean Live ram blocks { r with allocator } :=
  ⟨h.unused, halloc⟩

theorem RegionClean.specialise [BuddyHeap H] (hheap : HeapContract build H Live)
    (h : RegionClean Live ram blocks r) (hprotectable : r.area.Protectable)
    (hstop : r.area.stop < build.xlen.words) {emType : SecMemType}
    (hspecialise : r.specialise emType = .ok r') : RegionClean Live ram blocks r' := by
  have hkeep : pure r = Except.ok r' → RegionClean Live ram blocks r' := fun heq =>
    Checked.pure_eq_ok_iff.mp heq ▸ h
  simp only [SecMemRegion.specialise] at hspecialise
  cases hcase : r.allocator with
  | general =>
    have hdeserted : Deserted ram blocks r.area := by
      have hallocator := h.allocator
      rwa [AllocatorClean, hcase] at hallocator
    rw [hcase] at hspecialise
    cases emType with
    | runtime =>
      simp only [SecMemAllocator.init, pure_bind, Checked.pure_eq_ok_iff] at hspecialise
      subst hspecialise
      exact h.setAllocator ⟨rfl, rfl, le_rfl, hdeserted.1,
        fun p hp hinside => absurd hinside (hdeserted.2 p hp)⟩
    | application =>
      simp only [SecMemAllocator.init, SecMemAllocator.new, Checked.bind_eq_ok_iff,
        Checked.pure_eq_ok_iff] at hspecialise
      obtain ⟨_, ⟨buddy, hinit, rfl⟩, rfl⟩ := hspecialise
      exact h.setAllocator ⟨[], hheap.init hprotectable hstop hinit, fun p hp hinside => absurd hinside (hdeserted.2 p hp),
        hdeserted.1.mono fun _ hx => hx.1⟩
    | none => exact hkeep hspecialise
    | general => exact hkeep hspecialise
  | none => rw [hcase] at hspecialise; exact hkeep hspecialise
  | runtime a => rw [hcase] at hspecialise; exact hkeep hspecialise
  | application a => rw [hcase] at hspecialise; exact hkeep hspecialise

theorem RegionClean.pure_attempt (h : RegionClean Live ram blocks r)
    {attempt tried : SecMemRegion.Attempt}
    (heq : (pure (tried, r) : Except Panic _) = .ok (attempt, r'))
    (htried : ∀ ptr len, tried ≠ .found ptr len) :
    AttemptClean Live ram blocks r' attempt := by
  simp only [Checked.pure_eq_ok_iff, Prod.mk.injEq] at heq
  obtain ⟨rfl, rfl⟩ := heq
  cases tried with
  | found ptr len => exact absurd rfl (htried ptr len)
  | noLayout => exact h
  | refused expectLen => exact h

theorem RegionClean.tryAlloc_runtime [BuddyHeap H] (h : RegionClean Live ram blocks r) {a : RTAlloc}
    (hcase : r.allocator = .runtime a) {expectLen : Nat} {attempt : SecMemRegion.Attempt}
    (htry : r.tryAlloc build .runtime expectLen = .ok (attempt, r')) :
    AttemptClean Live ram blocks r' attempt := by
  have hallocator := h.allocator
  simp only [AllocatorClean, hcase] at hallocator
  obtain ⟨haddr, htotal, hlen, hfree, htaken⟩ := hallocator
  simp only [SecMemRegion.tryAlloc, hcase, SecMemAllocator.available, pure_bind] at htry
  split at htry
  · split at htry
    · exact h.pure_attempt htry (by rintro _ _ ⟨⟩)
    next layout hlayout =>
      obtain ⟨⟨k, hk⟩, -, rfl⟩ := Layout.fromSizeAlign_eq_some_iff.mp hlayout
      have hpos : 0 < a.len := hk ▸ Nat.two_pow_pos k
      have hvacant : ∀ p ∈ blocks, ¬ p.2.Inside r.area := fun p hp hinside => by
        have := (htaken p hp hinside).2
        omega
      simp only [SecMemAllocator.alloc, lt_irrefl, if_false, pure_bind] at htry
      by_cases hnull : a.addr = 0
      · simp only [RTAlloc.nonNull, if_pos hnull, Checked.pure_eq_ok_iff, Prod.mk.injEq] at htry
        obtain ⟨rfl, rfl⟩ := htry
        refine h.setAllocator ⟨haddr, htotal, Nat.zero_le _, fun x hx => ?_,
          fun p hp hinside => absurd hinside (hvacant p hp)⟩
        rw [Area.mem_addrs] at hx
        simp only at hx
        omega
      · simp only [RTAlloc.nonNull, if_neg hnull, Checked.pure_eq_ok_iff, Prod.mk.injEq] at htry
        obtain ⟨rfl, rfl⟩ := htry
        refine ⟨⟨hpos, ?_, hfree, fun p hp hinside => absurd hinside (hvacant p hp)⟩, fun number => ?_⟩
        · simp only [Area.Inside, Area.stop, SecMemRegion.area]
          omega
        · refine ⟨by rintro ⟨⟩, haddr, htotal, Nat.zero_le _, fun x hx => ?_, fun p hp hinside => ?_⟩
          · rw [Area.mem_addrs] at hx
            simp only at hx
            omega
          · rcases List.mem_cons.mp hp with rfl | hp
            · exact ⟨haddr, rfl⟩
            · exact absurd hinside (hvacant p hp)
  · exact h.pure_attempt htry (by rintro _ _ ⟨⟩)

/-- A shared region hands out what its allocator gives. -/
theorem RegionClean.tryAlloc_application [BuddyHeap H] (hheap : HeapContract build H Live)
    (h : RegionClean Live ram blocks r) {a : AppAlloc build H}
    (hcase : r.allocator = .application a) {expectLen : Nat} {attempt : SecMemRegion.Attempt}
    (htry : r.tryAlloc build .application expectLen = .ok (attempt, r')) :
    AttemptClean Live ram blocks r' attempt := by
  have hallocator := h.allocator
  simp only [AllocatorClean, hcase] at hallocator
  obtain ⟨live, hlive, hheld, hfree⟩ := hallocator
  simp only [SecMemRegion.tryAlloc, hcase] at htry
  obtain ⟨available, -, htry⟩ := Checked.bind_eq_ok_iff.mp htry
  split at htry
  · split at htry
    · exact h.pure_attempt htry (by rintro _ _ ⟨⟩)
    next layout hlayout =>
      obtain ⟨⟨k, hk⟩, -, rfl⟩ := Layout.fromSizeAlign_eq_some_iff.mp hlayout
      have hpos : 0 < expectLen := hk ▸ Nat.two_pow_pos k
      simp only [SecMemAllocator.alloc, Checked.bind_eq_ok_iff, Checked.pure_eq_ok_iff] at htry
      obtain ⟨_, ⟨⟨ptr, buddy⟩, halloc, rfl⟩, htry⟩ := htry
      cases ptr with
      | none =>
        simp only [Checked.pure_eq_ok_iff, Prod.mk.injEq] at htry
        obtain ⟨rfl, rfl⟩ := htry
        exact h.setAllocator ⟨live, hheap.alloc_none hlive hpos halloc, hheld, hfree⟩
      | some ptr =>
        simp only [Checked.pure_eq_ok_iff, Prod.mk.injEq] at htry
        obtain ⟨rfl, rfl⟩ := htry
        obtain ⟨-, hinside, hapart, hlive'⟩ := hheap.alloc_some hlive hpos halloc
        refine ⟨⟨hpos, hinside, fun x hx => ?_, fun p hp hp' => hapart p.2 (hheld p hp hp')⟩,
          fun number => ⟨by rintro ⟨⟩, _, hlive', fun p hp hp' => ?_, ?_⟩⟩
        · exact hfree x ⟨hinside.subset hx, fun b hb => (hapart b hb).symm.not_mem hx⟩
        · rcases List.mem_cons.mp hp with rfl | hp
          · exact List.mem_cons_self
          · exact List.mem_cons_of_mem _ (hheld p hp hp')
        · exact hfree.mono fun x hx => ⟨hx.1, fun b hb => hx.2 b (List.mem_cons_of_mem _ hb)⟩
  · exact h.pure_attempt htry (by rintro _ _ ⟨⟩)

theorem RegionClean.tryAlloc [BuddyHeap H] (hheap : HeapContract build H Live)
    (h : RegionClean Live ram blocks r) {emType : SecMemType} {expectLen : Nat}
    {attempt : SecMemRegion.Attempt}
    (htry : r.tryAlloc build emType expectLen = .ok (attempt, r')) :
    AttemptClean Live ram blocks r' attempt := by
  by_cases hruntime : ∃ a, r.allocator = .runtime a ∧ emType = .runtime
  · obtain ⟨a, hcase, rfl⟩ := hruntime
    exact h.tryAlloc_runtime hcase htry
  by_cases happlication : ∃ a, r.allocator = .application a ∧ emType = .application
  · obtain ⟨a, hcase, rfl⟩ := happlication
    exact h.tryAlloc_application hheap hcase htry
  rw [SecMemRegion.tryAlloc_otherType hruntime happlication] at htry
  exact h.pure_attempt htry (by rintro _ _ ⟨⟩)

/-- The regions after an allocation: what was found is fresh, and held from now on. -/
def Allotted (Live : H → Area → List Area → Prop) (ram : Nat → Cell Nat (BitVec 8))
    (blocks : List (Nat × Area)) (regions : List (EnclaveRegion build H)) :
    Option (Nat × Nat × Nat) → Prop
  | none => ∀ r ∈ regions, RegionClean Live ram blocks r
  | some (ptr, len, _) => (∃ r ∈ regions, Fresh ram blocks r.area ⟨ptr, len⟩) ∧
      ∀ number, ∀ r ∈ regions, RegionClean Live ram ((number, ⟨ptr, len⟩) :: blocks) r

theorem Allotted.cons {regions : List (EnclaveRegion build H)} {found : Option (Nat × Nat × Nat)}
    (hhead : RegionClean Live ram blocks r) (hrest : Allotted Live ram blocks regions found)
    (hapart : ∀ a ∈ regions.map (·.area), r.area.Apart a) :
    Allotted Live ram blocks (r :: regions) found := by
  match found with
  | none => exact List.forall_mem_cons.mpr ⟨hhead, hrest⟩
  | some (ptr, len, id) =>
    obtain ⟨⟨s, hs, hfresh⟩, hclean⟩ := hrest
    refine ⟨⟨s, List.mem_cons_of_mem _ hs, hfresh⟩, fun number => ?_⟩
    have hother : s.area.Apart r.area := (hapart s.area (List.mem_map_of_mem hs)).symm
    exact List.forall_mem_cons.mpr
      ⟨hhead.addOther hfresh.pos hfresh.inside hother number, hclean number⟩

theorem allocIn_allotted [BuddyHeap H] (hheap : HeapContract build H Live) {len expectLen : Nat}
    {emType : SecMemType} {regions regions' : List (EnclaveRegion build H)}
    {found : Option (Nat × Nat × Nat)} (hclean : ∀ r ∈ regions, RegionClean Live ram blocks r)
    (hprotectable : ∀ r ∈ regions, r.area.Protectable)
    (hstop : ∀ r ∈ regions, r.area.stop < build.xlen.words)
    (hapart : (regions.map (·.area)).Pairwise Area.Apart)
    (h : UniSecMemManager.allocIn build len emType expectLen regions = .ok (found, regions')) :
    Allotted Live ram blocks regions' found := by
  induction regions generalizing expectLen found regions' with
  | nil =>
    simp only [UniSecMemManager.allocIn, Checked.pure_eq_ok_iff, Prod.mk.injEq] at h
    obtain ⟨rfl, rfl⟩ := h
    exact List.forall_mem_nil _
  | cons region rest ih =>
    obtain ⟨hhead, htail⟩ := List.pairwise_cons.mp hapart
    obtain ⟨hregion, hrest⟩ := List.forall_mem_cons.mp hclean
    obtain ⟨hregionProtectable, hrestProtectable⟩ := List.forall_mem_cons.mp hprotectable
    obtain ⟨hregionStop, hrestStop⟩ := List.forall_mem_cons.mp hstop
    have hareas : ∀ {expectLen found} {rest' : List (EnclaveRegion build H)},
        UniSecMemManager.allocIn build len emType expectLen rest = .ok (found, rest') →
          ∀ a ∈ rest'.map (·.area), region.area.Apart a := by
      intro expectLen found rest' hloop a ha
      have hmap := congrArg (List.map Prod.fst) (UniSecMemManager.allocIn_footprints hloop)
      rw [List.map_map, List.map_map] at hmap
      exact hhead a (hmap ▸ ha)
    simp only [UniSecMemManager.allocIn] at h
    split at h
    · simp only [Checked.bind_eq_ok_iff, Checked.pure_eq_ok_iff, Prod.mk.injEq] at h
      obtain ⟨⟨found, rest'⟩, hloop, rfl, rfl⟩ := h
      exact .cons hregion (ih hrest hrestProtectable hrestStop htail hloop) (hareas hloop)
    · obtain ⟨special, hspecial, h⟩ := Checked.bind_eq_ok_iff.mp h
      obtain ⟨⟨attempt, region'⟩, htry, h⟩ := Checked.bind_eq_ok_iff.mp h
      have hspecialised := hregion.specialise hheap hregionProtectable hregionStop hspecial
      have hattempt := hspecialised.tryAlloc hheap htry
      have hfoot : region'.area = region.area := congrArg Prod.fst
        ((SecMemRegion.tryAlloc_footprint htry).trans (SecMemRegion.specialise_footprint hspecial))
      cases attempt with
      | found ptr n =>
        simp only [Checked.pure_eq_ok_iff, Prod.mk.injEq] at h
        obtain ⟨rfl, rfl⟩ := h
        obtain ⟨hfresh, hregion'⟩ := hattempt
        refine ⟨⟨region', List.mem_cons_self, hfresh⟩, fun number => ?_⟩
        refine List.forall_mem_cons.mpr ⟨hregion' number, fun r hr => ?_⟩
        refine (hrest r hr).addOther hfresh.pos hfresh.inside ?_ number
        rw [hfoot]
        exact hhead r.area (List.mem_map_of_mem hr)
      | noLayout =>
        simp only [Checked.pure_eq_ok_iff, Prod.mk.injEq] at h
        obtain ⟨rfl, rfl⟩ := h
        exact List.forall_mem_cons.mpr ⟨hattempt, hrest⟩
      | refused n =>
        simp only [Checked.bind_eq_ok_iff, Checked.pure_eq_ok_iff, Prod.mk.injEq] at h
        obtain ⟨⟨found, rest'⟩, hloop, rfl, rfl⟩ := h
        refine .cons hattempt (ih hrest hrestProtectable hrestStop htail hloop) ?_
        rw [hfoot]
        exact hareas hloop

end Alloc

/-! ## Release -/

section Release

variable {build : Build} {H : Type} {Live : H → Area → List Area → Prop}
  {ram : Nat → Cell Nat (BitVec 8)} {blocks : List (Nat × Area)} {r r' : EnclaveRegion build H}
  {addr len : Nat}

/-- The memory after `free_em` has zeroed its range. -/
abbrev zeroed (ram : Nat → Cell Nat (BitVec 8)) (addr len : Nat) : Nat → Cell Nat (BitVec 8) :=
  store ram addr (List.replicate len 0)

theorem mem_without {p : Nat × Area} : p ∈ without blocks addr ↔ p ∈ blocks ∧ p.2.addr ≠ addr := by
  simp [without]

/-- A runtime region gets what was zeroed, and nobody holds anything of it any more. -/
theorem RegionClean.release_runtime [BuddyHeap H] (h : RegionClean Live ram blocks r) {a : RTAlloc}
    (hcase : r.allocator = .runtime a) (hinside : (⟨addr, len⟩ : Area).Inside r.area)
    {id : Option Nat} (hrelease : r.release addr ⟨len, len⟩ = .ok (id, r')) :
    RegionClean Live (zeroed ram addr len) (without blocks addr) r' := by
  have hallocator := h.allocator
  simp only [AllocatorClean, hcase] at hallocator
  obtain ⟨haddr, htotal, hlen, hfree, htaken⟩ := hallocator
  simp only [SecMemRegion.release, hcase, SecMemAllocator.free, SecMemAllocator.available,
    SecMemAllocator.total] at hrelease
  by_cases hptr : addr = a.addr
  · have hzeroed : Clean (zeroed ram addr len) (⟨a.addr, len⟩ : Area).addrs := by
      rw [← hptr]
      exact Provenance.clean_store_zero len
    have hvacant : ∀ p ∈ without blocks addr, ¬ p.2.Inside r.area := by
      intro p hp hp'
      obtain ⟨hmem, hne⟩ := mem_without.mp hp
      exact hne ((htaken p hmem hp').1.trans (haddr.symm.trans hptr.symm))
    have hle : len ≤ r.len := by
      simp only [Area.Inside, Area.stop, SecMemRegion.area] at hinside
      omega
    rw [if_neg (not_not.mpr hptr)] at hrelease
    simp only [pure_bind] at hrelease
    split at hrelease
    next hall =>
      obtain ⟨-, rfl⟩ := Prod.mk.inj (Checked.pure_eq_ok_iff.mp hrelease)
      have hdeserted : Deserted (zeroed ram addr len) (without blocks addr) r.area := by
        have hwhole : (⟨a.addr, len⟩ : Area) = r.area := by
          rw [haddr, hall, htotal]
          rfl
        exact ⟨hwhole ▸ hzeroed, hvacant⟩
      exact ⟨fun _ => hdeserted, hdeserted⟩
    next hpart =>
      obtain ⟨-, rfl⟩ := Prod.mk.inj (Checked.pure_eq_ok_iff.mp hrelease)
      refine ⟨fun hunused => ⟨?_, hvacant⟩, haddr, htotal, hle, hzeroed,
        fun p hp hp' => absurd hp' (hvacant p hp)⟩
      exact (h.unused hunused).1.cleaner (Provenance.cleaner_store_zero len)
  · rw [if_pos hptr] at hrelease
    cases hrelease

/-- The allocator of a shared region without a block, or without the beginning of one. -/
theorem PrefixContract.dealloc_of_le [BuddyHeap H] (hheap : PrefixContract build H Live) {h : H}
    {heap b : Area} {live : List Area} (hlive : Live h heap live) (hb : b ∈ live)
    (hpow : ∃ k, len = 2 ^ k) (hle : len ≤ b.len) :
    ∃ h' live', BuddyHeap.dealloc h b.addr ⟨len, len⟩ = .ok h' ∧ Live h' heap live' ∧
      (∀ c ∈ live, c.addr ≠ b.addr → c ∈ live') ∧
      ∀ x ∉ (⟨b.addr, len⟩ : Area).addrs, (∀ c ∈ live', x ∉ c.addrs) → ∀ c ∈ live, x ∉ c.addrs := by
  have hkept : ∀ c ∈ live, c.addr ≠ b.addr → c ∈ live.erase b := by
    intro c hc hne
    refine (List.mem_erase_of_ne ?_).mpr hc
    rintro rfl
    exact hne rfl
  rcases hle.eq_or_lt with rfl | hlt
  · obtain ⟨h', hdealloc, hlive'⟩ := hheap.dealloc hlive hb
    refine ⟨h', _, hdealloc, hlive', hkept, fun x hx hfree c hc hxc => ?_⟩
    by_cases hcb : c = b
    · subst hcb
      exact hx hxc
    · exact hfree c ((List.mem_erase_of_ne hcb).mpr hc) hxc
  · obtain ⟨h', hdealloc, hlive'⟩ := hheap.dealloc_prefix hlive hb hpow hlt
    refine ⟨h', _, hdealloc, hlive', fun c hc hne => List.mem_cons_of_mem _ (hkept c hc hne),
      fun x hx hfree c hc hxc => ?_⟩
    obtain ⟨hrest, hothers⟩ := List.forall_mem_cons.mp hfree
    by_cases hcb : c = b
    · subst hcb
      -- the address is in the block, so in one of its two parts
      rw [Area.mem_addrs] at hx hrest hxc
      simp only at hx hrest
      omega
    · exact hothers c ((List.mem_erase_of_ne hcb).mpr hc) hxc

/-- A shared region gets the beginning of a block, which was zeroed. -/
theorem RegionClean.release_application [BuddyHeap H] (hheap : PrefixContract build H Live)
    (h : RegionClean Live ram blocks r) {a : AppAlloc build H}
    (hcase : r.allocator = .application a) (hpow : ∃ k, len = 2 ^ k) {p : Nat × Area}
    (hp : p ∈ blocks) (hinside : p.2.Inside r.area) (haddr : p.2.addr = addr) (hle : len ≤ p.2.len)
    {id : Option Nat} (hrelease : r.release addr ⟨len, len⟩ = .ok (id, r')) :
    RegionClean Live (zeroed ram addr len) (without blocks addr) r' := by
  have hallocator := h.allocator
  simp only [AllocatorClean, hcase] at hallocator
  obtain ⟨live, hlive, hheld, hfree⟩ := hallocator
  subst haddr
  obtain ⟨buddy, live', hdealloc, hlive', hkept, hcover⟩ :=
    hheap.dealloc_of_le hlive (hheld p hp hinside) hpow hle
  have hheld' : ∀ q ∈ without blocks p.2.addr, q.2.Inside r.area → q.2 ∈ live' := by
    intro q hq hq'
    obtain ⟨hmem, hne⟩ := mem_without.mp hq
    exact hkept q.2 (hheld q hmem hq') hne
  have hfree' : Clean (zeroed ram p.2.addr len)
      {x | x ∈ r.area.addrs ∧ ∀ b ∈ live', x ∉ b.addrs} := by
    intro x hx
    by_cases hin : x ∈ (⟨p.2.addr, len⟩ : Area).addrs
    · exact Provenance.clean_store_zero len x hin
    · exact (Provenance.cleaner_store_zero len).writer_eq_none (hfree x ⟨hx.1, hcover x hin hx.2⟩)
  have hstats := hheap.stats_le hlive'
  simp only [SecMemRegion.release, hcase, SecMemAllocator.free, SecMemAllocator.available,
    SecMemAllocator.total, hdealloc, Checked.ok_bind, pure_bind, Build.sub, if_pos hstats] at hrelease
  split at hrelease
  next hall =>
    obtain ⟨-, rfl⟩ := Prod.mk.inj (Checked.pure_eq_ok_iff.mp hrelease)
    obtain rfl : live' = [] := (hheap.stats_zero hlive').mp (by omega)
    have hdeserted : Deserted (zeroed ram p.2.addr len) (without blocks p.2.addr) r.area :=
      ⟨fun x hx => hfree' x ⟨hx, List.forall_mem_nil _⟩,
        fun q hq hq' => List.not_mem_nil (hheld' q hq hq')⟩
    exact ⟨fun _ => hdeserted, hdeserted⟩
  next hpart =>
    obtain ⟨-, rfl⟩ := Prod.mk.inj (Checked.pure_eq_ok_iff.mp hrelease)
    refine ⟨fun hunused => ?_, live', hlive', hheld', hfree'⟩
    exact absurd hinside ((h.unused hunused).2 p hp)

theorem Machine.freeIn_eq_ok {AR AA α : Type} [SecMemAllocator AR] [SecMemAllocator AA] [Zero α]
    {layout : Layout} {regions regions' : List (SecMemRegion AR AA)} {ram ram' : Nat → α}
    {id : Option Nat} (hstop : ∀ r ∈ regions, r.area.stop < build.xlen.words)
    (h : freeIn build addr len layout regions ram = .ok (id, regions', ram')) :
    ((∀ r ∈ regions, ¬ (⟨addr, len⟩ : Area).Inside r.area) ∧ id = none ∧ regions' = regions ∧
      ram' = ram) ∨
    ∃ before region region' after, regions = before ++ region :: after ∧
      (∀ r ∈ before, ¬ (⟨addr, len⟩ : Area).Inside r.area) ∧
      (⟨addr, len⟩ : Area).Inside region.area ∧ region.release addr layout = .ok (id, region') ∧
      regions' = before ++ region' :: after ∧ ram' = store ram addr (List.replicate len 0) := by
  induction regions generalizing regions' with
  | nil =>
    simp only [freeIn, Checked.pure_eq_ok_iff, Prod.mk.injEq] at h
    obtain ⟨rfl, rfl, rfl⟩ := h
    exact .inl ⟨List.forall_mem_nil _, rfl, rfl, rfl⟩
  | cons region rest ih =>
    obtain ⟨hregion, hrest⟩ := List.forall_mem_cons.mp hstop
    simp only [freeIn, SecMemRegion.isMemContained_eq_ok hregion, Checked.ok_bind,
      decide_eq_true_eq] at h
    split at h
    next hin =>
      simp only [Checked.bind_eq_ok_iff, Checked.pure_eq_ok_iff, Prod.mk.injEq] at h
      obtain ⟨⟨id, region'⟩, hrelease, rfl, rfl, rfl⟩ := h
      exact .inr ⟨[], region, region', rest, rfl, List.forall_mem_nil _, hin, hrelease, rfl, rfl⟩
    next hout =>
      simp only [Checked.bind_eq_ok_iff, Checked.pure_eq_ok_iff, Prod.mk.injEq] at h
      obtain ⟨⟨id, rest', ram'⟩, hloop, rfl, rfl, rfl⟩ := h
      rcases ih hrest hloop with ⟨hnone, rfl, rfl, rfl⟩ |
        ⟨before, region₁, region', after, rfl, hbefore, hin, hrelease, rfl, rfl⟩
      · exact .inl ⟨List.forall_mem_cons.mpr ⟨hout, hnone⟩, rfl, rfl, rfl⟩
      · exact .inr ⟨region :: before, region₁, region', after, rfl,
          List.forall_mem_cons.mpr ⟨hout, hbefore⟩, hin, hrelease, rfl, rfl⟩

end Release

/-! ## Runs -/

/-- An address of two managed regions is one of a single area. -/
theorem AreaInv.area_eq {AR AA : Type} {build : Build} {m : UniSecMemManager AR AA}
    (hinv : AreaInv build m) {a b : Area} (ha : a ∈ m.allocRegions.map (·.area))
    (hb : b ∈ m.allocRegions.map (·.area)) {x : Nat} (hxa : x ∈ a.addrs) (hxb : x ∈ b.addrs) :
    a = b := by
  by_contra hne
  exact (Area.apart_of_pairwise hinv.apart ha hb hne).not_mem hxa hxb

namespace Tenancy

variable {build : Build} {H : Type} {Live : H → Area → List Area → Prop} {s s' : Tenancy build H}

/-- The areas of the managed regions. -/
abbrev areas (s : Tenancy build H) : List Area := s.machine.manager.allocRegions.map (·.area)

/-- Regions are clean where nothing is held, and so is the memory outside of them; the blocks lie
in the regions, share no address and hold only what was written through them. -/
structure Inv (Live : H → Area → List Area → Prop) (s : Tenancy build H) : Prop where
  slots : SlotInv s.machine.manager
  bounds : AreaInv build s.machine.manager
  protectable : ∀ a ∈ s.areas, a.Protectable
  regions : ∀ r ∈ s.machine.manager.allocRegions, RegionClean Live s.machine.ram s.blocks r
  outside : Clean s.machine.ram {x | ∀ a ∈ s.areas, x ∉ a.addrs}
  placed : ∀ p ∈ s.blocks, 0 < p.2.len ∧ ∃ a ∈ s.areas, p.2.Inside a
  apart : s.blocks.Pairwise fun p q => p.2.Apart q.2
  own : ∀ p ∈ s.blocks, Own s.machine.ram p.1 p.2.addrs
  numbered : (s.blocks.map Prod.fst).Nodup
  numbers : ∀ p ∈ s.blocks, p.1 < s.calls

theorem Initial.inv (h : s.Initial) : Inv Live s := by
  obtain ⟨hmanager, hram, hblocks, -⟩ := h
  constructor
  case slots =>
    rw [hmanager]
    exact .of_new
  case bounds =>
    rw [hmanager]
    exact ⟨.nil, List.forall_mem_nil _⟩
  case protectable =>
    rw [areas, hmanager]
    exact List.forall_mem_nil _
  case regions =>
    rw [hmanager]
    exact List.forall_mem_nil _
  case outside => exact hram.mono (Set.subset_univ _)
  case placed =>
    rw [hblocks]
    exact List.forall_mem_nil _
  case apart =>
    rw [hblocks]
    exact .nil
  case own =>
    rw [hblocks]
    exact List.forall_mem_nil _
  case numbered =>
    rw [hblocks]
    exact List.nodup_nil
  case numbers =>
    rw [hblocks]
    exact List.forall_mem_nil _

/-! ### Writes -/

theorem Inv.writeOther (hinv : Inv Live s) (addr : Nat) (byte : BitVec 8) :
    Inv Live { s with machine :=
      ⟨s.machine.manager, Provenance.write s.machine.ram addr none byte⟩ } where
  slots := hinv.slots
  bounds := hinv.bounds
  protectable := hinv.protectable
  regions r hr := (hinv.regions r hr).cleaner Provenance.cleaner_write fun _ hp => hp
  outside := hinv.outside.cleaner Provenance.cleaner_write
  placed := hinv.placed
  apart := hinv.apart
  own p hp := (hinv.own p hp).cleaner Provenance.cleaner_write
  numbered := hinv.numbered
  numbers := hinv.numbers

theorem Inv.write (hinv : Inv Live s) {number : Nat} {b : Area} (hb : (number, b) ∈ s.blocks)
    {addr : Nat} (haddr : addr ∈ b.addrs) (byte : BitVec 8) :
    Inv Live { s with machine :=
      ⟨s.machine.manager, Provenance.write s.machine.ram addr (some number) byte⟩ } := by
  obtain ⟨-, a, ha, hinside⟩ := hinv.placed _ hb
  refine ⟨hinv.slots, hinv.bounds, hinv.protectable, fun r hr => ?_, fun x hx => ?_, hinv.placed,
    hinv.apart, fun p hp => ?_, hinv.numbered, hinv.numbers⟩
  · refine (hinv.regions r hr).mono (fun x hx hclean => ?_) fun _ hp _ => hp
    by_cases hxa : x = addr
    · subst hxa
      obtain rfl : a = r.area :=
        hinv.bounds.area_eq ha (List.mem_map_of_mem hr) (hinside.subset haddr) hx
      exact .inr ⟨_, hb, hinside, haddr⟩
    · left
      change (Provenance.write _ _ _ _ x).writer = none
      rw [Provenance.write_of_ne _ hxa]
      exact hclean
  · have hxa : x ≠ addr := by
      rintro rfl
      exact hx a ha (hinside.subset haddr)
    change (Provenance.write _ _ _ _ x).writer = none
    rw [Provenance.write_of_ne _ hxa]
    exact hinv.outside x hx
  · by_cases hpb : p = (number, b)
    · subst hpb
      exact (hinv.own _ hp).write_self
    · have hapart := Area.apart_of_pairwise hinv.apart hb hp (Ne.symm hpb)
      exact (hinv.own p hp).write_of_not_mem _ (hapart.not_mem haddr)

/-! ### Calls -/

theorem Inv.blocks_of_sublist (hinv : Inv Live s) {blocks : List (Nat × Area)}
    (hsub : blocks.Sublist s.blocks) : (blocks.map Prod.fst).Nodup ∧
      (blocks.Pairwise fun p q => p.2.Apart q.2) ∧ ∀ p ∈ blocks, p.1 < s.calls + 1 :=
  ⟨hinv.numbered.sublist (hsub.map _), hinv.apart.sublist hsub,
    fun p hp => Nat.lt_succ_of_lt (hinv.numbers p (hsub.subset hp))⟩

theorem Inv.of_regions (hinv : Inv Live s) (hslots : SlotInv s'.machine.manager)
    (hbounds : AreaInv build s'.machine.manager) (hram : s'.machine.ram = s.machine.ram)
    (hblocks : s'.blocks = s.blocks) (hcalls : s'.calls = s.calls + 1)
    (hprotectable : ∀ a ∈ s'.areas, a.Protectable)
    (hregions : ∀ r ∈ s'.machine.manager.allocRegions, RegionClean Live s.machine.ram s.blocks r)
    (houtside : Clean s.machine.ram {x | ∀ a ∈ s'.areas, x ∉ a.addrs})
    (hplaced : ∀ p ∈ s.blocks, ∃ a ∈ s'.areas, p.2.Inside a) : Inv Live s' := by
  obtain ⟨hnumbered, hapart, hnumbers⟩ := hinv.blocks_of_sublist (.refl s.blocks)
  rw [← hblocks] at hnumbered hapart hnumbers
  rw [← hcalls] at hnumbers
  refine ⟨hslots, hbounds, hprotectable, ?_, ?_, ?_, hapart, ?_, hnumbered, hnumbers⟩
  · rw [hram, hblocks]
    exact hregions
  · rw [hram]
    exact houtside
  · rw [hblocks]
    exact fun p hp => ⟨(hinv.placed p hp).1, hplaced p hp⟩
  · rw [hblocks, hram]
    exact hinv.own

/-- A region that is added was outside of all others, so clean. -/
theorem Inv.added (hinv : Inv Live s) (hslots : SlotInv s'.machine.manager)
    (hbounds : AreaInv build s'.machine.manager) (hram : s'.machine.ram = s.machine.ram)
    (hblocks : s'.blocks = s.blocks) (hcalls : s'.calls = s.calls + 1) {addr len id slot : Nat}
    (hprotectable : (⟨addr, len⟩ : Area).Protectable) (hnew : s'.machine.manager.allocRegions =
      s.machine.manager.allocRegions ++ [.new addr len id slot]) : Inv Live s' := by
  have hareas : s'.areas = s.areas ++ [⟨addr, len⟩] := by
    rw [areas, hnew, List.map_append]
    rfl
  have hothers : ∀ a ∈ s.areas, a.Apart ⟨addr, len⟩ := by
    intro a ha
    have hpairwise := hbounds.apart
    rw [hnew, List.map_append] at hpairwise
    exact (List.pairwise_append.mp hpairwise).2.2 a ha _ List.mem_cons_self
  have hdeserted : Deserted s.machine.ram s.blocks ⟨addr, len⟩ := by
    refine ⟨fun x hx => hinv.outside x fun a ha => (hothers a ha).symm.not_mem hx,
      fun p hp hinside => ?_⟩
    obtain ⟨hpos, a, ha, hinside'⟩ := hinv.placed p hp
    exact (hothers a ha).not_inside hpos hinside' hinside
  refine hinv.of_regions hslots hbounds hram hblocks hcalls ?_ ?_ ?_ fun p hp => ?_
  · rw [hareas]
    exact List.forall_mem_append.mpr ⟨hinv.protectable, List.forall_mem_singleton.mpr hprotectable⟩
  · rw [hnew]
    refine List.forall_mem_append.mpr ⟨hinv.regions, ?_⟩
    rw [List.forall_mem_singleton]
    exact ⟨fun _ => hdeserted, hdeserted⟩
  · rw [hareas]
    exact hinv.outside.mono fun x hx a ha => hx a (List.mem_append_left _ ha)
  · obtain ⟨-, a, ha, hinside⟩ := hinv.placed p hp
    rw [hareas]
    exact ⟨a, List.mem_append_left _ ha, hinside⟩

/-- A region that leaves is unused, so clean, and nobody holds anything of it. -/
theorem Inv.removed (hinv : Inv Live s) (hslots : SlotInv s'.machine.manager)
    (hbounds : AreaInv build s'.machine.manager) (hram : s'.machine.ram = s.machine.ram)
    (hblocks : s'.blocks = s.blocks) (hcalls : s'.calls = s.calls + 1)
    {region : EnclaveRegion build H} (hunused : region.isUsed = false)
    (hperm : s.machine.manager.allocRegions.Perm (region :: s'.machine.manager.allocRegions)) :
    Inv Live s' := by
  have hdeserted := (hinv.regions region (hperm.mem_iff.mpr List.mem_cons_self)).unused hunused
  have hareas : ∀ a, a ∈ s.areas ↔ a = region.area ∨ a ∈ s'.areas := fun a =>
    ((hperm.map (·.area)).mem_iff).trans List.mem_cons
  refine hinv.of_regions hslots hbounds hram hblocks hcalls ?_ ?_ (fun x hx => ?_) fun p hp => ?_
  · exact fun a ha => hinv.protectable a ((hareas a).mpr (.inr ha))
  · exact fun r hr => hinv.regions r (hperm.mem_iff.mpr (List.mem_cons_of_mem _ hr))
  · by_cases hxr : x ∈ region.area.addrs
    · exact hdeserted.1 x hxr
    · refine hinv.outside x fun a ha => ?_
      rcases (hareas a).mp ha with rfl | ha
      · exact hxr
      · exact hx a ha
  · obtain ⟨-, a, ha, hinside⟩ := hinv.placed p hp
    rcases (hareas a).mp ha with rfl | ha
    · exact absurd hinside (hdeserted.2 p hp)
    · exact ⟨a, ha, hinside⟩

theorem Inv.managed (hinv : Inv Live s) (hslots : SlotInv s'.machine.manager)
    (hbounds : AreaInv build s'.machine.manager) (hram : s'.machine.ram = s.machine.ram)
    (hblocks : s'.blocks = s.blocks) (hcalls : s'.calls = s.calls + 1)
    (hregions : s'.machine.manager.allocRegions = s.machine.manager.allocRegions ∨
      (∃ addr len id slot, (⟨addr, len⟩ : Area).Protectable ∧ s'.machine.manager.allocRegions =
        s.machine.manager.allocRegions ++ [.new addr len id slot]) ∨
      ∃ region, region.isUsed = false ∧
        s.machine.manager.allocRegions.Perm (region :: s'.machine.manager.allocRegions)) :
    Inv Live s' := by
  rcases hregions with hsame | ⟨addr, len, id, slot, hprotectable, hnew⟩ | ⟨region, hunused, hperm⟩
  · refine hinv.of_regions hslots hbounds hram hblocks hcalls ?_ ?_ ?_ fun p hp => ?_
    · rw [areas, hsame]
      exact hinv.protectable
    · rw [hsame]
      exact hinv.regions
    · rw [areas, hsame]
      exact hinv.outside
    · rw [areas, hsame]
      exact (hinv.placed p hp).2
  · exact hinv.added hslots hbounds hram hblocks hcalls hprotectable hnew
  · exact hinv.removed hslots hbounds hram hblocks hcalls hunused hperm

/-- Bytes and blocks only go. -/
theorem Inv.released (hinv : Inv Live s) (hslots : SlotInv s'.machine.manager)
    (hbounds : AreaInv build s'.machine.manager) (hareas : s'.areas = s.areas)
    (hcalls : s'.calls = s.calls + 1)
    (hregions : ∀ r ∈ s'.machine.manager.allocRegions, RegionClean Live s'.machine.ram s'.blocks r)
    (hcleaner : Cleaner s.machine.ram s'.machine.ram) (hsub : s'.blocks.Sublist s.blocks) :
    Inv Live s' := by
  obtain ⟨hnumbered, hapart, hnumbers⟩ := hinv.blocks_of_sublist hsub
  rw [← hcalls] at hnumbers
  refine ⟨hslots, hbounds, hareas ▸ hinv.protectable, hregions, ?_, fun p hp => ?_, hapart,
    fun p hp => ?_, hnumbered, hnumbers⟩
  · rw [hareas]
    exact hinv.outside.cleaner hcleaner
  · rw [hareas]
    exact hinv.placed p (hsub.subset hp)
  · exact (hinv.own p (hsub.subset hp)).cleaner hcleaner

/-- A block that is allocated is clean, and apart from all others. -/
theorem Inv.granted (hinv : Inv Live s) (hslots : SlotInv s'.machine.manager)
    (hbounds : AreaInv build s'.machine.manager) (hram : s'.machine.ram = s.machine.ram)
    (hareas : s'.areas = s.areas) (hcalls : s'.calls = s.calls + 1) {a b : Area}
    (ha : a ∈ s.areas) (hfresh : Fresh s.machine.ram s.blocks a b)
    (hblocks : s'.blocks = (s.calls, b) :: s.blocks)
    (hregions : ∀ r ∈ s'.machine.manager.allocRegions,
      RegionClean Live s.machine.ram ((s.calls, b) :: s.blocks) r) : Inv Live s' := by
  obtain ⟨hnumbered, hapart, hnumbers⟩ := hinv.blocks_of_sublist (.refl s.blocks)
  rw [← hcalls] at hnumbers
  have hnew : ∀ p ∈ s.blocks, b.Apart p.2 := by
    intro p hp
    obtain ⟨-, a', ha', hinside⟩ := hinv.placed p hp
    by_cases heq : a' = a
    · subst heq
      exact (hfresh.apart p hp hinside).symm
    · exact (Area.apart_of_pairwise hinv.bounds.apart ha ha' (Ne.symm heq)).mono hfresh.inside
        hinside
  constructor
  case slots => exact hslots
  case bounds => exact hbounds
  case protectable => exact hareas ▸ hinv.protectable
  case regions =>
    rw [hram, hblocks]
    exact hregions
  case outside =>
    rw [hareas, hram]
    exact hinv.outside
  case placed =>
    rw [hblocks, hareas]
    exact List.forall_mem_cons.mpr ⟨⟨hfresh.pos, a, ha, hfresh.inside⟩, hinv.placed⟩
  case apart =>
    rw [hblocks]
    exact List.pairwise_cons.mpr ⟨hnew, hapart⟩
  case own =>
    rw [hblocks, hram]
    exact List.forall_mem_cons.mpr ⟨hfresh.clean.own _, hinv.own⟩
  case numbered =>
    rw [hblocks, List.map_cons, List.nodup_cons]
    refine ⟨fun hmem => ?_, hnumbered⟩
    obtain ⟨p, hp, heq⟩ := List.mem_map.mp hmem
    exact absurd heq (hinv.numbers p hp).ne
  case numbers =>
    rw [hblocks, hcalls]
    exact List.forall_mem_cons.mpr ⟨Nat.lt_succ_self _, hcalls ▸ hnumbers⟩

/-- `free_em` does nothing, or it searches for its region. -/
theorem freeEm_eq_ok {AR AA α : Type} [SecMemAllocator AR] [SecMemAllocator AA] [Zero α]
    {m m' : Machine AR AA α} {addr len : Nat} {id : Option Nat}
    (h : m.freeEm build addr len = .ok (id, m')) :
    (id = none ∧ m' = m) ∨ (addr ≠ 0 ∧
      Layout.fromSizeAlign build (2 ^ Nat.clog 2 len) (2 ^ Nat.clog 2 len) =
        some ⟨2 ^ Nat.clog 2 len, 2 ^ Nat.clog 2 len⟩ ∧
      ∃ regions ram, Machine.freeIn build addr len ⟨2 ^ Nat.clog 2 len, 2 ^ Nat.clog 2 len⟩
        m.manager.allocRegions m.ram = .ok (id, regions, ram) ∧
      m' = ⟨{ m.manager with allocRegions := regions }, ram⟩) := by
  obtain ⟨expectLen, hexpect, h⟩ := Checked.bind_eq_ok_iff.mp h
  split at h
  next layout ptr hlayout hptr =>
    rw [← Layout.of_nextPowerOfTwo hexpect] at hlayout
    obtain ⟨-, -, rfl⟩ := Layout.fromSizeAlign_eq_some_iff.mp hlayout
    obtain ⟨hne, rfl⟩ : addr ≠ 0 ∧ addr = ptr := by
      simpa [RTAlloc.nonNull] using hptr
    simp only [Checked.bind_eq_ok_iff, Checked.pure_eq_ok_iff, Prod.mk.injEq] at h
    obtain ⟨⟨id, regions, ram⟩, hloop, rfl, rfl⟩ := h
    exact .inr ⟨hne, hlayout, regions, ram, hloop, rfl⟩
  next =>
    obtain ⟨rfl, rfl⟩ := Prod.mk.inj (Checked.pure_eq_ok_iff.mp h)
    exact .inl ⟨rfl, rfl⟩

/-- A region in use takes back what a careful client names. -/
theorem Inv.release [BuddyHeap H] (hheap : PrefixContract build H Live) (hinv : Inv Live s)
    {addr len : Nat} {region region' : EnclaveRegion build H} {id : Option Nat}
    (hregion : region ∈ s.machine.manager.allocRegions)
    (hinside : (⟨addr, len⟩ : Area).Inside region.area)
    (hcareful : match region.allocator with
      | .runtime _ => addr = region.addr → ∃ k, len = 2 ^ k
      | .application _ => (∃ k, len = 2 ^ k) ∧
          ∃ p ∈ s.blocks, p.2.addr = addr ∧ len ≤ p.2.len
      | _ => True)
    (hrelease : region.release addr ⟨2 ^ Nat.clog 2 len, 2 ^ Nat.clog 2 len⟩ = .ok (id, region')) :
    (id = none ∧ region' = region) ∨ (id ≠ none ∧
      RegionClean Live (zeroed s.machine.ram addr len) (without s.blocks addr) region') := by
  have hclean := hinv.regions region hregion
  have hreply : region.allocator ≠ .general → region.allocator ≠ .none → id ≠ none := by
    rintro hgeneral hnone rfl
    rcases (Machine.release_eq_none_iff.mp hrelease).1 with h | h
    · exact hgeneral h
    · exact hnone h
  cases hcase : region.allocator with
  | none =>
    simp only [SecMemRegion.release, hcase] at hrelease
    obtain ⟨rfl, rfl⟩ := Prod.mk.inj (Checked.pure_eq_ok_iff.mp hrelease)
    exact .inl ⟨rfl, rfl⟩
  | general =>
    simp only [SecMemRegion.release, hcase] at hrelease
    obtain ⟨rfl, rfl⟩ := Prod.mk.inj (Checked.pure_eq_ok_iff.mp hrelease)
    exact .inl ⟨rfl, rfl⟩
  | runtime a =>
    rw [hcase] at hcareful
    have haddr : addr = region.addr := by
      have hallocator := hclean.allocator
      simp only [AllocatorClean, hcase] at hallocator
      by_contra hne
      simp only [SecMemRegion.release, hcase, SecMemAllocator.free, hallocator.1, hne, ne_eq,
        not_false_eq_true, if_true] at hrelease
      cases hrelease
    rw [two_pow_clog_eq_iff.mpr (hcareful haddr)] at hrelease
    exact .inr ⟨hreply (by simp [hcase]) (by simp [hcase]),
      hclean.release_runtime hcase hinside hrelease⟩
  | application a =>
    rw [hcase] at hcareful
    obtain ⟨hpow, p, hp, haddr, hle⟩ := hcareful
    rw [two_pow_clog_eq_iff.mpr hpow] at hrelease
    -- the block begins in the region, so it lies there
    have hinside' : p.2.Inside region.area := by
      obtain ⟨hpos, a', ha', hin⟩ := hinv.placed p hp
      have hlen : 0 < len := by
        obtain ⟨k, rfl⟩ := hpow
        exact Nat.two_pow_pos k
      have hmem : addr ∈ region.area.addrs := hinside.subset (Area.addr_mem (a := ⟨addr, len⟩) hlen)
      obtain rfl := hinv.bounds.area_eq ha' (List.mem_map_of_mem hregion)
        (hin.subset (Area.addr_mem hpos)) (haddr ▸ hmem)
      exact hin
    exact .inr ⟨hreply (by simp [hcase]) (by simp [hcase]),
      hclean.release_application hheap hcase hpow hp hinside' haddr hle hrelease⟩

theorem Inv.freeEm [BuddyHeap H] (hheap : PrefixContract build H Live) (hinv : Inv Live s)
    {addr len : BitVec build.xlen.bits} {id : Option Nat} (hslots : SlotInv s'.machine.manager)
    (hbounds : AreaInv build s'.machine.manager) (hcalls : s'.calls = s.calls + 1)
    (hcareful : s.Careful (.call (.freeEm addr len)))
    (hfree : s.machine.freeEm build addr.toNat len.toNat = .ok (id, s'.machine))
    (hblocks : s'.blocks = s.held (.freeEm addr len) (.region id)) : Inv Live s' := by
  rcases freeEm_eq_ok hfree with ⟨rfl, hsame⟩ | ⟨haddr, hlayout, regions, ram, hloop, hmachine⟩
  · refine hinv.released hslots hbounds (by rw [areas, hsame]) hcalls ?_ ?_ ?_
    · rw [hsame, hblocks]
      exact hinv.regions
    · rw [hsame]
      exact .refl _
    · rw [hblocks]
      exact .refl _
  · obtain ⟨hmanager, hram⟩ := Machine.mk.inj hmachine
    have hsub : s'.blocks.Sublist s.blocks := by
      rw [hblocks]
      cases id with
      | none => exact .refl _
      | some id => exact List.filter_sublist
    rcases Machine.freeIn_eq_ok hinv.bounds.bounded hloop with ⟨-, rfl, rfl, rfl⟩ |
      ⟨before, region, region', after, hregions, hbefore, hinside, hrelease, rfl, rfl⟩
    · refine hinv.released hslots hbounds (by rw [areas, hmanager]) hcalls ?_ ?_ hsub
      · rw [hmanager, hram, hblocks]
        exact hinv.regions
      · rw [hram]
        exact .refl _
    · have hfinds : s.machine.manager.Finds build addr.toNat len.toNat region := by
        refine ⟨haddr, by rw [hlayout]; rfl, ?_⟩
        rw [List.find?_eq_some_iff_append]
        refine ⟨by simpa using hinside, before, after, hregions, fun r hr => ?_⟩
        simpa using hbefore r hr
      have hregion : region ∈ s.machine.manager.allocRegions := by simp [hregions]
      have hareas : s'.areas = s.areas := by
        have hfoot : region'.area = region.area :=
          congrArg Prod.fst (SecMemRegion.release_footprint hrelease)
        rw [areas, areas, hmanager, hregions]
        simp only [List.map_append, List.map_cons, hfoot]
      have hcleaner : Cleaner s.machine.ram s'.machine.ram := by
        rw [hram]
        exact Provenance.cleaner_store_zero _
      have hothers : ∀ r ∈ s.machine.manager.allocRegions,
          RegionClean Live s'.machine.ram s'.blocks r := fun r hr =>
        (hinv.regions r hr).cleaner hcleaner hsub.subset
      refine hinv.released hslots hbounds hareas hcalls (fun r hr => ?_) hcleaner hsub
      rw [hmanager] at hr
      rcases List.mem_append.mp hr with hr | hr
      · exact hothers r (hregions ▸ List.mem_append_left _ hr)
      rcases List.mem_cons.mp hr with rfl | hr
      · rcases hinv.release hheap hregion hinside (hcareful region hfinds) hrelease with
          ⟨-, rfl⟩ | ⟨hid, hclean⟩
        · exact hothers _ hregion
        · obtain ⟨id, rfl⟩ := Option.ne_none_iff_exists'.mp hid
          rw [hram, hblocks]
          exact hclean
      · exact hothers r (hregions ▸ List.mem_append_right _ (List.mem_cons_of_mem _ hr))

theorem Inv.allocEm [BuddyHeap H] (hheap : HeapContract build H Live) (hinv : Inv Live s)
    {len : BitVec build.xlen.bits} {emType : SecMemType} {found : Option (Nat × Nat × Nat)}
    (hslots : SlotInv s'.machine.manager) (hbounds : AreaInv build s'.machine.manager)
    (hram : s'.machine.ram = s.machine.ram) (hcalls : s'.calls = s.calls + 1)
    (halloc : s.machine.manager.allocEm build len.toNat emType = .ok (found, s'.machine.manager))
    (hblocks : s'.blocks = s.held (.allocEm len emType) (.block found)) : Inv Live s' := by
  have hareas : s'.areas = s.areas := (UniSecMemManager.allocEm_keepsRegions halloc).areas_eq
  simp only [UniSecMemManager.allocEm, Checked.bind_eq_ok_iff, Checked.pure_eq_ok_iff,
    Prod.mk.injEq] at halloc
  obtain ⟨expectLen, -, ⟨found, regions⟩, hloop, rfl, hmanager⟩ := halloc
  have hallotted :=
    allocIn_allotted hheap hinv.regions (List.forall_mem_map.mp hinv.protectable) hinv.bounds.bounded
      hinv.bounds.apart hloop
  have hregions : s'.machine.manager.allocRegions = regions := by rw [← hmanager]
  rw [← hregions] at hallotted
  rcases found with _ | ⟨ptr, n, id⟩
  · refine hinv.released hslots hbounds hareas hcalls ?_ ?_ ?_
    · rw [hram, hblocks]
      exact hallotted
    · rw [hram]
      exact .refl _
    · rw [hblocks]
      exact .refl _
  · obtain ⟨⟨r, hr, hfresh⟩, hclean⟩ := hallotted
    exact hinv.granted hslots hbounds hram hareas hcalls (hareas ▸ List.mem_map_of_mem hr) hfresh
      hblocks (hclean s.calls)

theorem Inv.step [BuddyHeap H] (hheap : PrefixContract build H Live) {action : Action build}
    (hinv : Inv Live s) (hstep : s.Step action s') (hcareful : s.Careful action) : Inv Live s' := by
  cases action with
  | write number addr byte =>
    obtain ⟨b, hb, haddr, rfl⟩ := hstep
    exact hinv.write hb haddr byte
  | writeOther addr byte =>
    obtain rfl := hstep
    exact hinv.writeOther addr byte
  | call request =>
    obtain ⟨reply, hcall, hblocks, hcalls⟩ := hstep
    have hmanager := Machine.call_manager hcall
    have heffect := UniSecMemManager.Step.effect ⟨reply, hmanager⟩ hinv.slots
    have hbelow : BelowTop s.machine.manager request := by
      cases request with
      | extend addr len => exact hcareful
      | init | reclaim | allocEm | freeEm => trivial
    have hslots := hinv.slots.effect heffect
    have hbounds := hinv.bounds.effect heffect hbelow
    cases request with
    | init smAddr smLen =>
      exact hinv.managed hslots hbounds (Machine.call_ram hcall nofun) hblocks hcalls
        (UniSecMemManager.call_regions hinv.slots hmanager trivial)
    | extend addr len =>
      exact hinv.managed hslots hbounds (Machine.call_ram hcall nofun) hblocks hcalls
        (UniSecMemManager.call_regions hinv.slots hmanager trivial)
    | reclaim =>
      exact hinv.managed hslots hbounds (Machine.call_ram hcall nofun) hblocks hcalls
        (UniSecMemManager.call_regions hinv.slots hmanager trivial)
    | allocEm len emType =>
      have hram := Machine.call_ram hcall nofun
      simp only [UniSecMemManager.call, Checked.bind_eq_ok_iff, Checked.pure_eq_ok_iff,
        Prod.mk.injEq] at hmanager
      obtain ⟨⟨found, m⟩, halloc, rfl, rfl⟩ := hmanager
      exact hinv.allocEm hheap.toHeapContract hslots hbounds hram hcalls halloc hblocks
    | freeEm addr len =>
      simp only [Machine.call, Checked.bind_eq_ok_iff, Checked.pure_eq_ok_iff,
        Prod.mk.injEq] at hcall
      obtain ⟨⟨id, m⟩, hfree, rfl, rfl⟩ := hcall
      exact hinv.freeEm hheap hslots hbounds hcalls hcareful hfree hblocks

/-! ### What is left -/

section Zeroed

variable {AR AA : Type} [SecMemAllocator AR] [SecMemAllocator AA] {m m' : UniSecMemManager AR AA}
  {addr len id : Nat}

theorem freeIn_some {α : Type} [Zero α] {layout : Layout}
    {regions regions' : List (SecMemRegion AR AA)}
    (h : UniSecMemManager.freeIn build addr len layout regions = .ok (some id, regions'))
    (ram : Nat → α) : Machine.freeIn build addr len layout regions ram =
      .ok (some id, regions', store ram addr (List.replicate len 0)) := by
  induction regions generalizing regions' with
  | nil => cases h
  | cons region rest ih =>
    rw [UniSecMemManager.freeIn] at h
    rw [Machine.freeIn]
    obtain ⟨contained, hcontained, h⟩ := Checked.bind_eq_ok_iff.mp h
    rw [hcontained, Checked.ok_bind]
    cases contained with
    | true =>
      simp only [if_true, Checked.bind_eq_ok_iff, Checked.pure_eq_ok_iff, Prod.mk.injEq] at h
      obtain ⟨⟨_, region'⟩, hrelease, rfl, rfl⟩ := h
      rw [if_pos rfl, hrelease]
      rfl
    | false =>
      simp only [Bool.false_eq_true, if_false, Checked.bind_eq_ok_iff, Checked.pure_eq_ok_iff,
        Prod.mk.injEq] at h
      obtain ⟨⟨_, rest'⟩, hloop, rfl, rfl⟩ := h
      rw [if_neg Bool.false_ne_true, ih hloop]
      rfl

/-- A call that succeeds has zeroed what its caller named. -/
theorem freeEm_some {α : Type} [Zero α] (h : m.freeEm build addr len = .ok (some id, m'))
    (ram : Nat → α) : Machine.freeEm build ⟨m, ram⟩ addr len =
      .ok (some id, ⟨m', store ram addr (List.replicate len 0)⟩) := by
  rw [UniSecMemManager.freeEm] at h
  rw [Machine.freeEm]
  obtain ⟨expectLen, hexpect, h⟩ := Checked.bind_eq_ok_iff.mp h
  rw [hexpect, Checked.ok_bind]
  cases hlayout : Layout.fromSizeAlign build expectLen expectLen with
  | none =>
    rw [hlayout] at h
    cases h
  | some layout =>
    cases hptr : RTAlloc.nonNull addr with
    | none =>
      rw [hlayout, hptr] at h
      cases h
    | some ptr =>
      rw [hlayout, hptr] at h
      simp only [Checked.bind_eq_ok_iff, Checked.pure_eq_ok_iff, Prod.mk.injEq] at h
      obtain ⟨⟨_, regions⟩, hloop, rfl, rfl⟩ := h
      have haddr : addr = ptr := by
        rw [RTAlloc.nonNull, Option.ite_none_left_eq_some] at hptr
        exact Option.some.inj hptr.2
      subst haddr
      simp only [freeIn_some hloop ram]
      rfl

/-- All that the allocator gets is zeroed if and only if it gets as much as was named. -/
theorem zeroes_iff (h : m.freeEm build addr len = .ok (some id, m')) :
    (∀ (ram : Nat → Cell Nat (BitVec 8)) after,
      Machine.freeEm build ⟨m, ram⟩ addr len = .ok (some id, after) →
        ∀ x ∈ (⟨addr, 2 ^ Nat.clog 2 len⟩ : Area).addrs, after.ram x = 0) ↔ ∃ k, len = 2 ^ k := by
  rw [← two_pow_clog_eq_iff]
  constructor
  · intro hzero
    by_contra hne
    have hle := Nat.le_pow_clog (b := 2) (by decide) len
    -- memory full of ones, and the first byte after those that were named
    have hin : addr + len ∈ (⟨addr, 2 ^ Nat.clog 2 len⟩ : Area).addrs := by
      rw [Area.mem_addrs]
      simp only
      omega
    have hnext : store (fun _ => (⟨1, none⟩ : Cell Nat (BitVec 8))) addr (List.replicate len 0)
        (addr + len) = 0 :=
      hzero (fun _ => ⟨1, none⟩) _ (freeEm_some h _) _ hin
    rw [Store.store_replicate, if_neg (by omega)] at hnext
    cases congrArg Cell.value hnext
  · intro hpow ram after hafter x hx
    rw [freeEm_some h ram] at hafter
    cases hafter
    rw [hpow, Area.mem_addrs] at hx
    change store ram addr (List.replicate len 0) x = 0
    rw [Store.store_replicate, if_pos hx]

end Zeroed

theorem Inv.scrubbed [BuddyHeap H] (hinv : Inv Live s) : s.Scrubbed where
  freed _ _ _ _ hfree := zeroes_iff hfree
  separate := hinv.own
  numbered := hinv.numbered

/-- Over every run of careful calls, with any writes through blocks and by others, memory that
is given back is scrubbed. -/
theorem freed_memory_scrubbed [BuddyHeap H] (hheap : PrefixContract build H Live)
    {initial : Tenancy build H} {actions : List (Action build)} (hinit : initial.Initial)
    (hrun : Run (fun s action s' => s.Step action s' ∧ s.Careful action) initial actions s) :
    s.Scrubbed :=
  (hrun.invariant (P := Inv Live)
    (fun _ _ _ hinv hstep => hinv.step hheap hstep.1 hstep.2) hinit.inv).scrubbed

/-! ## Two runs -/

theorem Step.of_manager [BuddyHeap H] {request : Request build} (reply : Reply)
    (manager : UniSecMemManager RTAlloc (AppAlloc build H))
    (h : s.machine.manager.call request = .ok (reply, manager))
    (hfree : ∀ addr len, request ≠ .freeEm addr len) :
    s.Step (.call request) ⟨⟨manager, s.machine.ram⟩, s.held request reply, s.calls + 1⟩ := by
  refine ⟨reply, ?_, rfl, rfl⟩
  cases request with
  | freeEm addr len => exact absurd rfl (hfree addr len)
  | init | extend | reclaim | allocEm =>
    rw [Machine.call, h]
    · rfl
    · exact hfree

theorem Step.of_freeEm [BuddyHeap H] {addr len : BitVec build.xlen.bits} (id : Nat)
    (manager : UniSecMemManager RTAlloc (AppAlloc build H))
    (h : s.machine.manager.freeEm build addr.toNat len.toNat = .ok (some id, manager)) :
    s.Step (.call (.freeEm addr len)) ⟨⟨manager, zeroed s.machine.ram addr.toNat len.toNat⟩,
      without s.blocks addr.toNat, s.calls + 1⟩ := by
  refine ⟨.region (some id), ?_, rfl, rfl⟩
  rw [Machine.call, freeEm_some h s.machine.ram]
  rfl

/-- No call yet, and memory full of zeros. -/
def start : Tenancy build H := ⟨⟨.new, fun _ => 0⟩, [], 0⟩

theorem start_initial : (start : Tenancy build H).Initial :=
  ⟨rfl, fun _ _ => rfl, rfl, rfl⟩

/-- One region of two pages that is taken whole, given back in part and taken again. -/
def residueActions : List (Action ⟨.rv64, true⟩) :=
  [.call (.extend 0x80000000#64 0x2000#64), .call (.allocEm 0x2000#64 .runtime),
    .write 1 0x80001fff 0x5a, .call (.freeEm 0x80000000#64 0x1001#64),
    .call (.allocEm 0x2000#64 .runtime)]

/-- The last byte of the region outlives a `free_em` of a little more than half of it: the next
enclave finds what the one before has written there. -/
theorem residue_found : ∃ s : Tenancy ⟨.rv64, true⟩ FirstFit, Run Step start residueActions s ∧
    s.blocks = [(3, ⟨0x80000000, 0x2000⟩)] ∧ s.machine.ram 0x80001fff = ⟨0x5a, some 1⟩ ∧
    ¬ s.Scrubbed := by
  let ram : Nat → Cell Nat (BitVec 8) := Provenance.write (fun _ => 0) 0x80001fff (some 1) 0x5a
  let added : Tenancy ⟨.rv64, true⟩ FirstFit := ⟨⟨twoPages.manager, fun _ => 0⟩, [], 1⟩
  let taken : Tenancy ⟨.rv64, true⟩ FirstFit :=
    ⟨⟨twoPagesTaken.manager, fun _ => 0⟩, [(1, ⟨0x80000000, 0x2000⟩)], 2⟩
  let written : Tenancy ⟨.rv64, true⟩ FirstFit :=
    ⟨⟨twoPagesTaken.manager, ram⟩, [(1, ⟨0x80000000, 0x2000⟩)], 2⟩
  let freed : Tenancy ⟨.rv64, true⟩ FirstFit :=
    ⟨⟨twoPages.manager, zeroed ram 0x80000000 0x1001⟩, [], 3⟩
  let again : Tenancy ⟨.rv64, true⟩ FirstFit :=
    ⟨⟨twoPagesTaken.manager, zeroed ram 0x80000000 0x1001⟩, [(3, ⟨0x80000000, 0x2000⟩)], 4⟩
  have hadd : (start : Tenancy ⟨.rv64, true⟩ FirstFit).Step
      (.call (.extend 0x80000000#64 0x2000#64)) added :=
    .of_manager (.done true) twoPages.manager (by decide +kernel) nofun
  have htake : added.Step (.call (.allocEm 0x2000#64 .runtime)) taken :=
    .of_manager (.block (some (0x80000000, 0x2000, 1))) twoPagesTaken.manager (by decide +kernel)
      nofun
  have hwrite : taken.Step (.write 1 0x80001fff 0x5a) written :=
    ⟨_, List.mem_cons_self, ⟨by decide, by decide⟩, rfl⟩
  have hfree : written.Step (.call (.freeEm 0x80000000#64 0x1001#64)) freed :=
    .of_freeEm 1 twoPages.manager (by decide +kernel)
  have hagain : freed.Step (.call (.allocEm 0x2000#64 .runtime)) again :=
    .of_manager (.block (some (0x80000000, 0x2000, 1))) twoPagesTaken.manager (by decide +kernel)
      nofun
  have hram : again.machine.ram = zeroed ram 0x80000000 0x1001 := rfl
  have hresidue : again.machine.ram 0x80001fff = ⟨0x5a, some 1⟩ := by
    rw [hram, zeroed, Store.store_replicate, if_neg (by decide)]
    exact Function.update_self _ _ _
  refine ⟨again, .cons hadd (.cons htake (.cons hwrite (.cons hfree (.cons hagain (.nil _))))), rfl,
    hresidue, fun h => ?_⟩
  have hown := h.separate (3, ⟨0x80000000, 0x2000⟩) List.mem_cons_self 0x80001fff
    ⟨by decide, by decide⟩
  rw [hresidue] at hown
  rcases hown with hnone | hown
  · cases hnone
  · cases hown

end Tenancy

/-! ## A page that is used twice -/

theorem FirstFit.prefixContract (build : Build) : PrefixContract build FirstFit FirstFit.Live where
  toHeapContract := FirstFit.contract build
  dealloc_prefix := by
    intro h heap live block size hlive hblock _ hsize
    obtain ⟨rfl, rfl⟩ := And.intro hlive.manages hlive.allocated
    have hwhole : (⟨block.addr, size⟩ : Area) ∉ h.live := by
      intro hmem
      have heq := congrArg Area.len (hlive.eq_of_addr hblock hmem rfl)
      exact hsize.ne heq
    have hfind : h.live.find? (fun b => decide (b.addr = block.addr ∧ size < b.len)) = some block := by
      cases hcase : h.live.find? fun b => decide (b.addr = block.addr ∧ size < b.len) with
      | none =>
        have hnot := List.find?_eq_none.mp hcase block hblock
        rw [decide_eq_true_eq] at hnot
        exact absurd ⟨rfl, hsize⟩ hnot
      | some b =>
        have hb := List.find?_some hcase
        rw [decide_eq_true_eq] at hb
        rw [hlive.eq_of_addr hblock (List.mem_of_find?_eq_some hcase) hb.1]
    refine ⟨_, rfl, ?_⟩
    rw [giveBack, if_neg hwhole, hfind]
    have hrest := hlive.erase hblock
    have htaken := taken_erase hblock
    have hroom := hlive.room
    have hinside : (⟨block.addr + size, block.len - size⟩ : Area).Inside block := by
      simp only [Area.Inside, Area.stop]
      omega
    refine ⟨rfl, rfl, ?_, ?_, ?_⟩
    · exact List.forall_mem_cons.mpr ⟨Nat.sub_pos_of_lt hsize, hrest.pos⟩
    · refine List.pairwise_cons.mpr ⟨fun c hc => ?_, hrest.apart⟩
      have hperm := hlive.apart.perm (List.perm_cons_erase hblock) Area.Apart.symm
      exact ((List.pairwise_cons.mp hperm).1 c hc).mono hinside ⟨le_rfl, le_rfl⟩
    · rw [taken_cons]
      dsimp only
      omega

namespace Tenancy

/-- A manager with one page, and the same with its first `taken` bytes in use. -/
def onePage : UniSecMemManager RTAlloc (AppAlloc ⟨.rv64, true⟩ FirstFit) where
  curIdx := 1
  protector := ⟨⟨4#64, pmpAllocMask, pmpManageMask⟩, [2]⟩
  reservedRegions := []
  allocRegions := [.new 0x80000000 0x1000 1 2]

def onePageShared (taken : Nat) : UniSecMemManager RTAlloc (AppAlloc ⟨.rv64, true⟩ FirstFit) where
  curIdx := 1
  protector := ⟨⟨4#64, pmpAllocMask, pmpManageMask⟩, [2]⟩
  reservedRegions := []
  allocRegions := [⟨0x80000000, 0x1000, 1, 2, true,
    .application ⟨⟨⟨0x80000000, 0x1000⟩, [⟨0x80000000, taken⟩]⟩⟩⟩]

/-- A page that is written to, given back and taken again in part. -/
theorem freed_memory_scrubbed_one_page :
    ∃ (actions : List (Action ⟨.rv64, true⟩)) (s : Tenancy ⟨.rv64, true⟩ FirstFit),
      Run Step start actions s ∧ s.blocks = [(3, ⟨0x80000000, 0x800⟩)] ∧ s.Scrubbed := by
  let ram : Nat → Cell Nat (BitVec 8) := Provenance.write (fun _ => 0) 0x80000010 (some 1) 0x5a
  let added : Tenancy ⟨.rv64, true⟩ FirstFit := ⟨⟨onePage, fun _ => 0⟩, [], 1⟩
  let taken : Tenancy ⟨.rv64, true⟩ FirstFit :=
    ⟨⟨onePageShared 0x1000, fun _ => 0⟩, [(1, ⟨0x80000000, 0x1000⟩)], 2⟩
  let written : Tenancy ⟨.rv64, true⟩ FirstFit :=
    ⟨⟨onePageShared 0x1000, ram⟩, [(1, ⟨0x80000000, 0x1000⟩)], 2⟩
  let freed : Tenancy ⟨.rv64, true⟩ FirstFit :=
    ⟨⟨onePage, zeroed ram 0x80000000 0x1000⟩, [], 3⟩
  let again : Tenancy ⟨.rv64, true⟩ FirstFit :=
    ⟨⟨onePageShared 0x800, zeroed ram 0x80000000 0x1000⟩, [(3, ⟨0x80000000, 0x800⟩)], 4⟩
  have hadd : (start : Tenancy ⟨.rv64, true⟩ FirstFit).Step
      (.call (.extend 0x80000000#64 0x1000#64)) added :=
    .of_manager (.done true) onePage (by decide +kernel) nofun
  have htake : added.Step (.call (.allocEm 0x1000#64 .application)) taken :=
    .of_manager (.block (some (0x80000000, 0x1000, 1))) (onePageShared 0x1000) (by decide +kernel)
      nofun
  have hwrite : taken.Step (.write 1 0x80000010 0x5a) written :=
    ⟨_, List.mem_cons_self, ⟨by decide, by decide⟩, rfl⟩
  have hfree : written.Step (.call (.freeEm 0x80000000#64 0x1000#64)) freed :=
    .of_freeEm 1 onePage (by decide +kernel)
  have hagain : freed.Step (.call (.allocEm 0x800#64 .application)) again :=
    .of_manager (.block (some (0x80000000, 0x800, 1))) (onePageShared 0x800) (by decide +kernel)
      nofun
  have hbelow : (start : Tenancy ⟨.rv64, true⟩ FirstFit).Careful
      (.call (.extend 0x80000000#64 0x1000#64)) := by
    intro _ _
    decide
  have hwhole : written.Careful (.call (.freeEm 0x80000000#64 0x1000#64)) := by
    rintro region ⟨-, -, hfind⟩
    obtain rfl : (onePageShared 0x1000).allocRegions.head (by decide) = region := by
      have hhead : (onePageShared 0x1000).allocRegions.find? (fun r =>
          decide ((⟨0x80000000, 0x1000⟩ : Area).Inside r.area)) =
            some ((onePageShared 0x1000).allocRegions.head (by decide)) := by
        decide +kernel
      exact Option.some.inj (hhead.symm.trans hfind)
    exact ⟨⟨12, rfl⟩, _, List.mem_cons_self, rfl, le_rfl⟩
  have hrun : Run (fun s action s' => s.Step action s' ∧ s.Careful action) start _ again :=
    .cons ⟨hadd, hbelow⟩ (.cons ⟨htake, trivial⟩ (.cons ⟨hwrite, trivial⟩
      (.cons ⟨hfree, hwhole⟩ (.cons ⟨hagain, trivial⟩ (.nil _)))))
  exact ⟨_, again, hrun.mono fun _ _ _ hstep => hstep.1, rfl,
    freed_memory_scrubbed (FirstFit.prefixContract _) start_initial hrun⟩

end Tenancy

end RustSbi.Smm
