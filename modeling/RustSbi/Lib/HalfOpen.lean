import Mathlib.Order.Interval.Set.Basic
import Mathlib.Data.List.Pairwise

/-!
Lists of half-open intervals `[lo p, hi p)` over a linear order in which every
interval ends strictly before the next one begins. Such a list is the unique
description of its union by maximal intervals: an interval that the union
covers lies in one member.
-/

namespace HalfOpen

variable {ι α : Type} [LinearOrder α] {lo hi : ι → α}

/-- Every interval of the list ends strictly before the later ones begin. -/
def Separated (lo hi : ι → α) (l : List ι) : Prop := l.Pairwise fun p q => hi p < lo q

/-- The points that the intervals of the list cover. -/
def Covers (lo hi : ι → α) (l : List ι) (a : α) : Prop := ∃ p ∈ l, a ∈ Set.Ico (lo p) (hi p)

@[simp] theorem covers_nil (a : α) : ¬ Covers lo hi [] a := by
  simp [Covers]

@[simp] theorem covers_cons (p : ι) (l : List ι) (a : α) :
    Covers lo hi (p :: l) a ↔ a ∈ Set.Ico (lo p) (hi p) ∨ Covers lo hi l a := by
  simp [Covers]

@[simp] theorem covers_append (l m : List ι) (a : α) :
    Covers lo hi (l ++ m) a ↔ Covers lo hi l a ∨ Covers lo hi m a := by
  simp [Covers, or_and_right, exists_or]

@[simp] theorem covers_reverse (l : List ι) (a : α) :
    Covers lo hi l.reverse a ↔ Covers lo hi l a := by
  simp [Covers]

theorem covers_of_perm {l m : List ι} (h : l.Perm m) (a : α) :
    Covers lo hi l a ↔ Covers lo hi m a := by
  simp only [Covers, h.mem_iff]

/-- Two members are the same or one ends before the other begins. -/
theorem Separated.trichotomy {l : List ι} (h : Separated lo hi l) {p q : ι}
    (hp : p ∈ l) (hq : q ∈ l) : p = q ∨ hi p < lo q ∨ hi q < lo p := by
  induction l with
  | nil => simp at hp
  | cons r l ih =>
    obtain ⟨hr, hl⟩ := List.pairwise_cons.mp h
    rcases List.mem_cons.mp hp with rfl | hp'
    · rcases List.mem_cons.mp hq with rfl | hq'
      · exact Or.inl rfl
      · exact Or.inr (Or.inl (hr q hq'))
    · rcases List.mem_cons.mp hq with rfl | hq'
      · exact Or.inr (Or.inr (hr p hp'))
      · exact ih hl hp' hq'

/-- A nonempty interval that a separated list covers lies in one member. -/
theorem Separated.exists_contains {l : List ι} (h : Separated lo hi l) {a b : α}
    (hab : a < b) (hc : ∀ x ∈ Set.Ico a b, Covers lo hi l x) :
    ∃ p ∈ l, lo p ≤ a ∧ b ≤ hi p := by
  obtain ⟨p, hp, hpa⟩ := hc a ⟨le_rfl, hab⟩
  refine ⟨p, hp, hpa.1, ?_⟩
  by_contra hb
  -- The end of the member that holds `a` is a covered point of the interval,
  -- and no member can hold it.
  obtain ⟨q, hq, hqb⟩ := hc (hi p) ⟨hpa.2.le, not_le.mp hb⟩
  rcases h.trichotomy hp hq with rfl | hlt | hlt
  · exact lt_irrefl _ hqb.2
  · exact absurd hqb.1 (not_le.mpr hlt)
  · exact lt_irrefl _ (hlt.trans (hpa.1.trans_lt (hpa.2.trans hqb.2)))

/-- The converse direction: a member covers every point of an interval inside it. -/
theorem covers_of_contains {l : List ι} {p : ι} (hp : p ∈ l) {a b : α}
    (ha : lo p ≤ a) (hb : b ≤ hi p) : ∀ x ∈ Set.Ico a b, Covers lo hi l x :=
  fun _ hx => ⟨p, hp, ha.trans hx.1, hx.2.trans_le hb⟩

/-- A member is a maximal interval of the union, so it is a member of every separated list
of nonempty intervals with the same union. -/
theorem Separated.mem_of_covers {l m : List ι} (hl : Separated lo hi l) (hm : Separated lo hi m)
    (hlt : ∀ p, lo p < hi p) (hext : ∀ p q, lo p = lo q → hi p = hi q → p = q)
    (hc : ∀ a, Covers lo hi l a ↔ Covers lo hi m a) {p : ι} (hp : p ∈ l) : p ∈ m := by
  obtain ⟨q, hq, hqlo, hqhi⟩ := hm.exists_contains (hlt p) fun a ha => (hc a).mp ⟨p, hp, ha⟩
  obtain ⟨r, hr, hrlo, hrhi⟩ := hl.exists_contains (hlt q) fun a ha => (hc a).mpr ⟨q, hq, ha⟩
  have hmeet : lo p < hi r := (hlt p).trans_le (hqhi.trans hrhi)
  rcases hl.trichotomy hp hr with rfl | hbefore | hafter
  · rw [hext p q (le_antisymm hrlo hqlo) (le_antisymm hqhi hrhi)]
    exact hq
  · exact absurd (hbefore.trans_le (hrlo.trans hqlo)) (not_lt.mpr (hlt p).le)
  · exact absurd (hmeet.trans hafter) (lt_irrefl _)

/-- The union determines a separated list of nonempty intervals. -/
theorem Separated.eq_of_covers {l m : List ι} (hl : Separated lo hi l) (hm : Separated lo hi m)
    (hlt : ∀ p, lo p < hi p) (hext : ∀ p q, lo p = lo q → hi p = hi q → p = q)
    (hc : ∀ a, Covers lo hi l a ↔ Covers lo hi m a) : l = m := by
  have hnodup : ∀ {k : List ι}, Separated lo hi k → k.Nodup := by
    intro k hk
    refine List.Pairwise.imp ?_ hk
    rintro p _ hpp rfl
    exact lt_asymm hpp (hlt p)
  have hperm : l.Perm m := (List.perm_ext_iff_of_nodup (hnodup hl) (hnodup hm)).mpr fun p =>
    ⟨hl.mem_of_covers hm hlt hext hc, hm.mem_of_covers hl hlt hext fun a => (hc a).symm⟩
  refine List.Perm.eq_of_pairwise (fun p q _ _ hpq hqp => ?_) hl hm hperm
  have hpq' : hi p < hi q := hpq.trans (hlt q)
  have hqp' : hi q < hi p := hqp.trans (hlt p)
  exact absurd hqp' (lt_asymm hpq')

end HalfOpen
