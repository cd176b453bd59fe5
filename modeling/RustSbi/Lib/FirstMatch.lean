import Mathlib.Tactic
import Mathlib.Data.List.Find

/-!
Tables of rows that are searched for the first match. A row goes in only if it
overlaps no row that is there; the order of the rows is no matter exactly as
far as no two of them match one key.
-/

namespace FirstMatch

variable {α β κ : Type}

/-- Appends the row unless it overlaps one of the table. -/
def insertDisjoint (overlap : α → α → Bool) (rows : List α) (row : α) : List α :=
  if rows.any (overlap · row) then rows else rows ++ [row]

/-- Two rows match one key. -/
def Conflict (isMatch : α → β → Bool) (a b : α) : Prop :=
  ∃ e, isMatch a e = true ∧ isMatch b e = true

/-- Every key matches at most one row. -/
def AtMostOne (isMatch : α → β → Bool) (rows : List α) : Prop :=
  ∀ e, (rows.filter (isMatch · e)).length ≤ 1

section

variable {isMatch : α → β → Bool} {overlap : α → α → Bool} {rows rows' : List α} {row : α}

theorem atMostOne_iff_pairwise :
    AtMostOne isMatch rows ↔ rows.Pairwise fun a b => ¬ Conflict isMatch a b := by
  induction rows with
  | nil => simp [AtMostOne]
  | cons row rest ih =>
    rw [List.pairwise_cons, ← ih]
    constructor
    · intro h
      refine ⟨?_, fun e => ?_⟩
      · rintro b hb ⟨e, hrow, hmatch⟩
        have hlen := h e
        rw [List.filter_cons_of_pos (p := (isMatch · e)) hrow, List.length_cons] at hlen
        have hpos := List.length_pos_of_mem (List.mem_filter (p := (isMatch · e)) |>.mpr ⟨hb, hmatch⟩)
        omega
      · exact ((List.sublist_cons_self row rest).filter _).length_le.trans (h e)
    · rintro ⟨hrow, hrest⟩ e
      by_cases hmatch : isMatch row e = true
      · have hnil : rest.filter (isMatch · e) = [] :=
          List.filter_eq_nil_iff.mpr fun b hb hb' => hrow b hb ⟨e, hmatch, hb'⟩
        rw [List.filter_cons_of_pos (p := (isMatch · e)) hmatch, hnil, List.length_singleton]
      · rw [List.filter_cons_of_neg (p := (isMatch · e)) hmatch]
        exact hrest e

theorem AtMostOne.eq_of_conflict (h : AtMostOne isMatch rows) {a b : α} (ha : a ∈ rows)
    (hb : b ∈ rows) (hconflict : Conflict isMatch a b) : a = b := by
  obtain ⟨e, hae, hbe⟩ := hconflict
  have hlen := h e
  generalize hfilter : rows.filter (isMatch · e) = found at hlen
  have ha' : a ∈ found := hfilter ▸ List.mem_filter.mpr ⟨ha, hae⟩
  have hb' : b ∈ found := hfilter ▸ List.mem_filter.mpr ⟨hb, hbe⟩
  match found, hlen with
  | [c], _ => exact (List.mem_singleton.mp ha').trans (List.mem_singleton.mp hb').symm

/-- The first match does not depend on the order of rows that match one key at most. -/
theorem AtMostOne.find?_perm (h : AtMostOne isMatch rows) (hperm : rows.Perm rows') (e : β) :
    rows.find? (isMatch · e) = rows'.find? (isMatch · e) :=
  List.find?_eq_find?_of_perm hperm fun _ ha _ hb => h.eq_of_conflict ha.1 hb.1 ⟨e, ha.2, hb.2⟩

/-- Tables that may be absent, with the same rows. -/
theorem rel_perm_cases {table table' : Option (List α)} (h : Option.Rel List.Perm table table') :
    (table = none ∧ table' = none) ∨
      ∃ rows rows', table = some rows ∧ table' = some rows' ∧ rows.Perm rows' := by
  cases h with
  | none => exact .inl ⟨rfl, rfl⟩
  | some h => exact .inr ⟨_, _, rfl, rfl, h⟩

/-! ## Insertion -/

theorem mem_insertDisjoint {a : α} (h : a ∈ insertDisjoint overlap rows row) :
    a ∈ rows ∨ a = row := by
  unfold insertDisjoint at h
  split at h
  · exact .inl h
  · simpa using h

theorem subset_insertDisjoint : rows ⊆ insertDisjoint overlap rows row := by
  unfold insertDisjoint
  split
  · exact fun _ h => h
  · exact List.subset_append_left rows [row]

theorem pairwise_insertDisjoint (h : rows.Pairwise fun a b => overlap a b = false) :
    (insertDisjoint overlap rows row).Pairwise fun a b => overlap a b = false := by
  unfold insertDisjoint
  split
  · exact h
  · rename_i hany
    refine List.pairwise_append.mpr ⟨h, List.pairwise_singleton _ _, fun a ha b hb => ?_⟩
    rw [List.mem_singleton.mp hb]
    exact eq_false_of_ne_true fun hoverlap => hany (List.any_eq_true.mpr ⟨a, ha, hoverlap⟩)

/-- A row that is refused overlaps one that is there. -/
theorem exists_overlap_insertDisjoint (hrefl : overlap row row = true) :
    ∃ a ∈ insertDisjoint overlap rows row, overlap a row = true := by
  unfold insertDisjoint
  split
  · rename_i hany
    exact List.any_eq_true.mp hany
  · exact ⟨row, List.mem_append_right _ (List.mem_singleton_self row), hrefl⟩

/-- With an overlap test that no conflict passes, one row at most matches a key. -/
theorem atMostOne_of_pairwise (h : rows.Pairwise fun a b => overlap a b = false)
    (hoverlap : ∀ a b, overlap a b = false → ¬ Conflict isMatch a b) : AtMostOne isMatch rows :=
  atMostOne_iff_pairwise.mpr (h.imp fun {a b} hab => hoverlap a b hab)

end

end FirstMatch
