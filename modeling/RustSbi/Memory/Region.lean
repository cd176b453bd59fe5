import Mathlib.Data.List.Sort
import RustSbi.Target
import RustSbi.Lib.HalfOpen

/-!
Non-empty physical-address ranges (`memory/region.rs`). A range carries the
proofs that it is non-empty and that its exclusive end is a `usize`; the range
that would hold the topmost byte of the address space therefore does not exist.
-/

namespace RustSbi.Memory

open HalfOpen

variable {xlen : Xlen}

/-- `PhysAddrRange`: the half-open range `[start, stop)` of physical addresses. -/
@[ext] structure PhysAddrRange (xlen : Xlen) where
  start : Nat
  stop : Nat
  start_lt_stop : start < stop
  stop_lt_words : stop < xlen.words
  deriving DecidableEq, Repr

namespace PhysAddrRange

/-- `PhysAddrRange::new`; the arguments are `usize` values. -/
def new (start stop : Nat) (hs : stop < xlen.words) : Result (PhysAddrRange xlen) :=
  if h : start < stop then .ok ⟨start, stop, h, hs⟩ else .error .invalidArgs

/-- `PhysAddrRange::from_start_len`. -/
def fromStartLen (xlen : Xlen) (start len : Nat) : Result (PhysAddrRange xlen) :=
  if len = 0 then .error .invalidArgs
  else if h : start + len < xlen.words then new start (start + len) h
  else .error .overflow

/-- `PhysAddrRange::size`. -/
def size (r : PhysAddrRange xlen) : Nat := r.stop - r.start

/-- `PhysAddrRange::contains`. -/
def contains (r other : PhysAddrRange xlen) : Bool :=
  r.start ≤ other.start && other.stop ≤ r.stop

/-- `PhysAddrRange::overlaps`. -/
def overlaps (r other : PhysAddrRange xlen) : Bool :=
  r.start < other.stop && other.start < r.stop

/-- `PhysAddrRange::adjacent`. -/
def adjacent (r other : PhysAddrRange xlen) : Bool :=
  r.stop == other.start || other.stop == r.start

/-- `PhysAddrRange::join`. -/
def join (r other : PhysAddrRange xlen) : PhysAddrRange xlen where
  start := if r.start < other.start then r.start else other.start
  stop := if r.stop > other.stop then r.stop else other.stop
  start_lt_stop := by
    have := r.start_lt_stop
    have := other.start_lt_stop
    split <;> split <;> omega
  stop_lt_words := by
    split
    · exact r.stop_lt_words
    · exact other.stop_lt_words

/-- `PhysAddrRange::subrange`: `len` bytes from `offset` bytes past the start. -/
def subrange (r : PhysAddrRange xlen) (offset len : Nat) : Result (PhysAddrRange xlen) :=
  if hl : len = 0 then .error .invalidArgs
  else if r.start + offset < xlen.words then
    if he : r.start + offset + len < xlen.words then
      if r.start + offset + len > r.stop then .error .invalidArgs
      else .ok ⟨r.start + offset, r.start + offset + len, by omega, he⟩
    else .error .overflow
  else .error .overflow

/-- `sort_unstable_by_key(|range| range.start())`. The order among equal keys is
left open by the library; nothing below depends on it. -/
def sortByStart (l : List (PhysAddrRange xlen)) : List (PhysAddrRange xlen) :=
  l.insertionSort fun p q => p.start ≤ q.start

/-- The part of `r` that `other` covers, when there is one. -/
def clip (r other : PhysAddrRange xlen) : Option (PhysAddrRange xlen) :=
  if h : max r.start other.start < min r.stop other.stop then
    some ⟨max r.start other.start, min r.stop other.stop, h,
      (Nat.min_le_left ..).trans_lt r.stop_lt_words⟩
  else none

/-- The loop of `excluding` over the clipped ranges in the order of their
starts: `cursor` is the first address not yet decided. -/
def excludingFrom (r : PhysAddrRange xlen) (cursor : Nat) :
    List (PhysAddrRange xlen) → List (PhysAddrRange xlen)
  | [] =>
    if h : cursor < r.stop then [⟨cursor, r.stop, h, r.stop_lt_words⟩] else []
  | range :: ranges =>
    let rest := excludingFrom r (max cursor range.stop) ranges
    if h : cursor < range.start then
      ⟨cursor, range.start, h, range.start_lt_stop.trans range.stop_lt_words⟩ :: rest
    else rest

/-- `PhysAddrRange::excluding`. -/
def excluding (r : PhysAddrRange xlen) (excluded : List (PhysAddrRange xlen)) :
    List (PhysAddrRange xlen) :=
  excludingFrom r r.start (sortByStart (excluded.filterMap r.clip))

/-- The addresses of a range. -/
instance : Membership Nat (PhysAddrRange xlen) where
  mem r a := r.start ≤ a ∧ a < r.stop

instance (a : Nat) (r : PhysAddrRange xlen) : Decidable (a ∈ r) :=
  inferInstanceAs (Decidable (r.start ≤ a ∧ a < r.stop))

theorem mem_iff {a : Nat} {r : PhysAddrRange xlen} : a ∈ r ↔ r.start ≤ a ∧ a < r.stop := Iff.rfl

/-- Some range of the list holds the address. -/
abbrev Covered (l : List (PhysAddrRange xlen)) (a : Nat) : Prop := Covers start stop l a

/-- Every range of the list ends before the next one begins, with a gap. -/
abbrev Apart (l : List (PhysAddrRange xlen)) : Prop := Separated start stop l

theorem covered_iff {l : List (PhysAddrRange xlen)} {a : Nat} : Covered l a ↔ ∃ r ∈ l, a ∈ r :=
  Iff.rfl

/-! ## Range algebra -/

@[simp] theorem contains_iff (r other : PhysAddrRange xlen) :
    r.contains other = true ↔ r.start ≤ other.start ∧ other.stop ≤ r.stop := by
  simp [contains]

/-- Two non-empty ranges overlap exactly when they share an address. -/
theorem overlaps_iff_exists (r other : PhysAddrRange xlen) :
    r.overlaps other = true ↔ ∃ a, a ∈ r ∧ a ∈ other := by
  have hr := r.start_lt_stop
  have ho := other.start_lt_stop
  simp only [overlaps, Bool.and_eq_true, decide_eq_true_eq, mem_iff]
  constructor
  · rintro ⟨h₁, h₂⟩
    exact ⟨max r.start other.start, by omega, by omega⟩
  · rintro ⟨a, h₁, h₂⟩
    omega

/-- Joining two ranges that touch or overlap covers exactly their addresses. -/
theorem mem_join_of_le {r other : PhysAddrRange xlen} (hs : r.start ≤ other.start)
    (ht : other.start ≤ r.stop) (a : Nat) : a ∈ r.join other ↔ a ∈ r ∨ a ∈ other := by
  have := r.start_lt_stop
  have := other.start_lt_stop
  simp only [mem_iff, join]
  split <;> split <;> omega

theorem sortByStart_perm (l : List (PhysAddrRange xlen)) : (sortByStart l).Perm l :=
  List.perm_insertionSort _ l

theorem sortByStart_sorted (l : List (PhysAddrRange xlen)) :
    (sortByStart l).Pairwise fun p q => p.start ≤ q.start := by
  have : Std.Total fun p q : PhysAddrRange xlen => p.start ≤ q.start :=
    ⟨fun p q => Nat.le_total p.start q.start⟩
  have : IsTrans (PhysAddrRange xlen) fun p q => p.start ≤ q.start :=
    ⟨fun _ _ _ => Nat.le_trans⟩
  exact List.pairwise_insertionSort _ l

theorem covered_sortByStart (l : List (PhysAddrRange xlen)) (a : Nat) :
    Covered (sortByStart l) a ↔ Covered l a :=
  covers_of_perm (sortByStart_perm l) a

/-! ## Subtraction -/

theorem mem_of_clip {r other c : PhysAddrRange xlen} (h : r.clip other = some c) (a : Nat) :
    a ∈ c ↔ a ∈ r ∧ a ∈ other := by
  unfold clip at h
  split at h
  · cases h
    simp only [mem_iff]
    omega
  · simp at h

theorem clip_eq_none {r other : PhysAddrRange xlen} (h : r.clip other = none) (a : Nat) :
    ¬ (a ∈ r ∧ a ∈ other) := by
  unfold clip at h
  split at h
  · simp at h
  · simp only [mem_iff]
    omega

theorem covered_filterMap_clip (r : PhysAddrRange xlen) (l : List (PhysAddrRange xlen)) (a : Nat) :
    Covered (l.filterMap r.clip) a ↔ a ∈ r ∧ Covered l a := by
  induction l with
  | nil => simp
  | cons q l ih =>
    rw [List.filterMap_cons]
    cases h : r.clip q with
    | none =>
      have := clip_eq_none h a
      simp only [covers_cons, ih, ← mem_iff, Set.mem_Ico]
      tauto
    | some c =>
      have := mem_of_clip h a
      simp only [covers_cons, ih, ← mem_iff, Set.mem_Ico]
      tauto

/-- Everything `excludingFrom` emits lies between the cursor and the end. -/
theorem excludingFrom_bounds (r : PhysAddrRange xlen) (l : List (PhysAddrRange xlen))
    (cursor : Nat) (hl : ∀ q ∈ l, q.stop ≤ r.stop) :
    ∀ p ∈ excludingFrom r cursor l, cursor ≤ p.start ∧ p.stop ≤ r.stop := by
  induction l generalizing cursor with
  | nil =>
    intro p hp
    simp only [excludingFrom] at hp
    split at hp
    · rw [List.mem_singleton] at hp
      subst hp
      exact ⟨le_rfl, le_rfl⟩
    · simp at hp
  | cons q l ih =>
    intro p hp
    have hq := hl q (List.mem_cons_self ..)
    have hrest := ih (max cursor q.stop) fun q hq => hl q (List.mem_cons_of_mem _ hq)
    simp only [excludingFrom] at hp
    split at hp
    · rcases List.mem_cons.mp hp with rfl | hp
      · exact ⟨le_rfl, q.start_lt_stop.le.trans hq⟩
      · have := hrest p hp
        omega
    · have := hrest p hp
      omega

theorem excludingFrom_apart (r : PhysAddrRange xlen) (l : List (PhysAddrRange xlen))
    (cursor : Nat) (hl : ∀ q ∈ l, q.stop ≤ r.stop) : Apart (excludingFrom r cursor l) := by
  induction l generalizing cursor with
  | nil =>
    simp only [excludingFrom]
    split
    · exact List.pairwise_singleton _ _
    · exact List.Pairwise.nil
  | cons q l ih =>
    have hl' : ∀ q ∈ l, q.stop ≤ r.stop := fun q hq => hl q (List.mem_cons_of_mem _ hq)
    simp only [excludingFrom]
    split
    · refine List.pairwise_cons.mpr ⟨fun p hp => ?_, ih _ hl'⟩
      -- The next piece starts past the subtracted range, which is not empty.
      have := (excludingFrom_bounds r l _ hl' p hp).1
      have := q.start_lt_stop
      show q.start < p.start
      omega
    · exact ih _ hl'

/-- The pieces cover what the cursor has left of `r` outside the subtracted
ranges, provided these come in the order of their starts. -/
theorem covered_excludingFrom (r : PhysAddrRange xlen) (l : List (PhysAddrRange xlen))
    (cursor : Nat) (hs : l.Pairwise fun p q => p.start ≤ q.start)
    (hl : ∀ q ∈ l, q.stop ≤ r.stop) (a : Nat) :
    Covered (excludingFrom r cursor l) a ↔ (cursor ≤ a ∧ a < r.stop) ∧ ¬ Covered l a := by
  induction l generalizing cursor with
  | nil =>
    simp only [excludingFrom]
    split
    · simp
    · simp only [covers_nil, not_false_eq_true, and_true, false_iff]
      omega
  | cons q l ih =>
    obtain ⟨hq, hs'⟩ := List.pairwise_cons.mp hs
    have hqs := q.start_lt_stop
    have hqr := hl q (List.mem_cons_self ..)
    have hrest := ih (max cursor q.stop) hs' fun q hq => hl q (List.mem_cons_of_mem _ hq)
    -- Below the start of `q` none of the later ranges holds an address.
    have hbelow : a < q.start → ¬ Covered l a := by
      rintro ha ⟨p, hp, hpa⟩
      have := hq p hp
      exact absurd hpa.1 (by omega)
    simp only [excludingFrom, covers_cons, Set.mem_Ico]
    split
    · simp only [covers_cons, hrest, Set.mem_Ico]
      constructor
      · rintro (⟨h₁, h₂⟩ | ⟨⟨h₁, h₂⟩, h₃⟩)
        · exact ⟨⟨h₁, by omega⟩, fun h => h.elim (by omega) (hbelow h₂)⟩
        · exact ⟨⟨by omega, h₂⟩, fun h => h.elim (by omega) h₃⟩
      · rintro ⟨⟨h₁, h₂⟩, h₃⟩
        rcases Nat.lt_or_ge a q.start with h | h
        · exact Or.inl ⟨h₁, h⟩
        · refine Or.inr ⟨⟨?_, h₂⟩, fun hc => h₃ (Or.inr hc)⟩
          by_contra hlt
          exact h₃ (Or.inl ⟨h, by omega⟩)
    · rw [hrest]
      constructor
      · rintro ⟨⟨h₁, h₂⟩, h₃⟩
        exact ⟨⟨by omega, h₂⟩, fun h => h.elim (by omega) h₃⟩
      · rintro ⟨⟨h₁, h₂⟩, h₃⟩
        refine ⟨⟨?_, h₂⟩, fun hc => h₃ (Or.inr hc)⟩
        by_contra hlt
        exact h₃ (Or.inl ⟨by omega, by omega⟩)

theorem stop_le_of_clip {r other c : PhysAddrRange xlen} (h : r.clip other = some c) :
    c.stop ≤ r.stop := by
  unfold clip at h
  split at h
  · cases h
    exact Nat.min_le_left ..
  · simp at h

private theorem clipped_stop_le (r : PhysAddrRange xlen) (l : List (PhysAddrRange xlen)) :
    ∀ q ∈ sortByStart (l.filterMap r.clip), q.stop ≤ r.stop := by
  intro q hq
  rw [(sortByStart_perm _).mem_iff, List.mem_filterMap] at hq
  obtain ⟨p, _, hp⟩ := hq
  exact stop_le_of_clip hp

/-- `excluding` keeps exactly the addresses outside the excluded ranges. -/
theorem covered_excluding (r : PhysAddrRange xlen) (excluded : List (PhysAddrRange xlen))
    (a : Nat) : Covered (r.excluding excluded) a ↔ a ∈ r ∧ ¬ Covered excluded a := by
  unfold excluding
  rw [covered_excludingFrom r _ _ (sortByStart_sorted _) (clipped_stop_le r excluded),
    covered_sortByStart, covered_filterMap_clip, ← mem_iff]
  tauto

theorem excluding_apart (r : PhysAddrRange xlen) (excluded : List (PhysAddrRange xlen)) :
    Apart (r.excluding excluded) :=
  excludingFrom_apart r _ _ (clipped_stop_le r excluded)

theorem excluding_bounds (r : PhysAddrRange xlen) (excluded : List (PhysAddrRange xlen)) :
    ∀ p ∈ r.excluding excluded, r.start ≤ p.start ∧ p.stop ≤ r.stop :=
  excludingFrom_bounds r _ _ (clipped_stop_le r excluded)

end PhysAddrRange

end RustSbi.Memory
