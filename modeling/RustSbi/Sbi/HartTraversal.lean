import RustSbi.Lib.DoubleEnded
import RustSbi.Sbi.HartSet

/-!
The iterator of a hart mask from both ends. Over an ordinary mask both ends take set
bits from one word, so any interleaving of the ends visits each hart once. The range
that stands for every hart is half-open at the front and closed at the back, so the two
ends do not walk the same set of harts.
-/

namespace RustSbi.Ipi

open Bits Checked DoubleEnded

variable {xlen : Xlen}

namespace HartIds

/-- `HartIds::next_back`, with the iterator after it. -/
def nextBack : HartIds xlen → Except Panic (Option (Nat × HartIds xlen))
  | maskBase unvisitedMask base =>
    if unvisitedMask = 0#(xlen.bits) then .ok none
    else
      let highBit := unvisitedMask.clz.toNat
      let bit := xlen.bits - highBit - 1
      if bit + base < xlen.words then
        .ok (some (bit + base, maskBase (unvisitedMask &&& ~~~(1#(xlen.bits) <<< bit)) base))
      else .error .addOverflow
  | range start stop =>
    if stop < start then .error .explicit
    else .ok (if start < stop then some (stop, range start (stop - 1)) else none)

/-- The two ends of the iterator. -/
def ends : Iter Panic (HartIds xlen) Nat := ⟨next, nextBack⟩

/-- `HartIds::count`. -/
def count (ids : HartIds xlen) : Nat := ids.sizeHint

/-- `HartIds::last`. -/
def last (ids : HartIds xlen) : Except Panic (Option Nat) := ids.nextBack.map (Option.map Prod.fst)

/-- `HartIds::min`. -/
def min (ids : HartIds xlen) : Except Panic (Option Nat) := ids.next.map (Option.map Prod.fst)

/-- `HartIds::max`. -/
def max (ids : HartIds xlen) : Except Panic (Option Nat) := ids.nextBack.map (Option.map Prod.fst)

/-- What `next`, `next_back` and `size_hint` assert of a range. -/
def Ordered : HartIds xlen → Prop
  | maskBase _ _ => True
  | range start stop => start ≤ stop

/-- The summary methods agree with what is collected from the front, and this is the reverse of
what is collected from the back. -/
structure Summarized (ids : HartIds xlen) (items : List Nat) : Prop where
  front : ∀ fuel ≥ ids.sizeHint, ends.collect .front fuel ids = .ok items
  back : ∀ fuel ≥ ids.sizeHint, ends.collect .back fuel ids = .ok items.reverse
  count : ids.count = items.length
  last : ids.last = .ok items.getLast?
  min : ids.min = .ok items.min?
  max : ids.max = .ok items.max?

end HartIds

/-- Whatever the order in which the two ends of its iterator are called, a mask is walked without
a panic, each of its harts is visited once, and the summary methods tell what is still to come. -/
structure HartMask.Coherent (mask : HartMask xlen) : Prop where
  walks : ∀ turns, ∃ items rest, HartIds.ends.walk turns mask.iter = .ok (items, rest) ∧
    (items.map Prod.snd).Nodup ∧ rest.Ordered ∧
      (mask.iter.sizeHint ≤ turns.length → HartIds.ends.Exhausted rest)
  visits : ∀ turns items rest, HartIds.ends.walk turns mask.iter = .ok (items, rest) →
    HartIds.ends.Exhausted rest →
      ∀ hartId, hartId ∈ items.map Prod.snd ↔ hartId < xlen.words ∧ mask.Denotes hartId
  remaining : ∀ turns items rest, HartIds.ends.walk turns mask.iter = .ok (items, rest) →
    ∀ more items' rest', HartIds.ends.walk more rest = .ok (items', rest') →
      HartIds.ends.Exhausted rest' → items'.length = rest.sizeHint
  summaries : ∀ turns items rest, HartIds.ends.walk turns mask.iter = .ok (items, rest) →
    ∃ ids, rest.Summarized ids

/-! ## Ordinary masks -/

namespace HartIds

/-- The harts still to come, all of which are words. -/
def Holds : HartIds xlen → List Nat → Prop
  | maskBase mask base, ids =>
    ids = (setBits mask).map (· + base) ∧ ∀ i ∈ setBits mask, i + base < xlen.words
  | range _ _, _ => False

theorem setBits_eq_nil_iff {mask : BitVec xlen.bits} : setBits mask = [] ↔ mask = 0#(xlen.bits) := by
  constructor
  · intro hnil
    by_contra hmask
    rw [setBits_eq_ctz_cons hmask] at hnil
    cases hnil
  · rintro rfl
    exact setBits_zero

/-- Both ends take the harts of the mask, the front from the lowest and the back from the highest. -/
theorem views : (@ends xlen).Views Holds where
  front_nil := by
    rintro (⟨mask, base⟩ | ⟨start, stop⟩) ⟨hids, -⟩
    have hmask := setBits_eq_nil_iff.mp (List.map_eq_nil_iff.mp hids.symm)
    simp [ends, next, hmask]
  front_cons := by
    rintro (⟨mask, base⟩ | ⟨start, stop⟩) a l ⟨hids, hwords⟩
    have hmask : mask ≠ 0#(xlen.bits) := by
      rintro rfl
      rw [setBits_zero] at hids
      cases hids
    have hcons := setBits_eq_ctz_cons hmask
    rw [hcons] at hids hwords
    rw [List.map_cons, List.cons.injEq] at hids
    obtain ⟨rfl, hrest⟩ := hids
    refine ⟨maskBase (mask &&& ~~~(1#(xlen.bits) <<< mask.ctz.toNat)) base, ?_, hrest,
      fun i hi => hwords i (List.mem_cons_of_mem _ hi)⟩
    simp [ends, next, hmask, hwords _ List.mem_cons_self]
  back_nil := by
    rintro (⟨mask, base⟩ | ⟨start, stop⟩) ⟨hids, -⟩
    have hmask := setBits_eq_nil_iff.mp (List.map_eq_nil_iff.mp hids.symm)
    simp [ends, nextBack, hmask]
  back_concat := by
    rintro (⟨mask, base⟩ | ⟨start, stop⟩) a l ⟨hids, hwords⟩
    have hmask : mask ≠ 0#(xlen.bits) := by
      rintro rfl
      rw [setBits_zero] at hids
      simp at hids
    have hconcat := setBits_eq_append_clz hmask
    rw [hconcat] at hids hwords
    rw [List.map_append, List.map_singleton] at hids
    obtain ⟨hrest, hlast⟩ := List.append_inj' hids rfl
    obtain rfl := List.singleton_inj.mp hlast
    refine ⟨maskBase (mask &&& ~~~(1#(xlen.bits) <<< (xlen.bits - mask.clz.toNat - 1))) base, ?_,
      hrest, fun i hi => hwords i (List.mem_append_left _ hi)⟩
    have hword := hwords _ (List.mem_append_right _ List.mem_cons_self)
    simp [ends, nextBack, hmask, hword]

variable {ids : HartIds xlen} {items : List Nat}

theorem Holds.sizeHint (h : ids.Holds items) : ids.sizeHint = items.length := by
  match ids, h with
  | maskBase mask base, ⟨hitems, _⟩ => rw [hitems, List.length_map, HartIds.sizeHint, countOnes]

theorem Holds.ordered (h : ids.Holds items) : ids.Ordered := by
  match ids, h with
  | maskBase mask base, _ => exact trivial

theorem Holds.pairwise (h : ids.Holds items) : items.Pairwise (· < ·) := by
  match ids, h with
  | maskBase mask base, ⟨hitems, _⟩ =>
    rw [hitems]
    exact (List.pairwise_lt_range.filter _).map _ fun a b hab => Nat.add_lt_add_right hab base

theorem Holds.next (h : ids.Holds items) : ids.next.map (Option.map Prod.fst) = .ok items.head? := by
  cases items with
  | nil =>
    have hnext : ids.next = .ok none := views.front_nil ids h
    rw [hnext]
    rfl
  | cons a rest =>
    obtain ⟨ids', hfront, -⟩ := views.front_cons ids a rest h
    have hnext : ids.next = .ok (some (a, ids')) := hfront
    rw [hnext]
    rfl

theorem Holds.nextBack (h : ids.Holds items) :
    ids.nextBack.map (Option.map Prod.fst) = .ok items.getLast? := by
  rcases List.eq_nil_or_concat' items with rfl | ⟨rest, a, rfl⟩
  · have hnext : ids.nextBack = .ok none := views.back_nil ids h
    rw [hnext]
    rfl
  · obtain ⟨ids', hback, -⟩ := views.back_concat ids a rest h
    have hnext : ids.nextBack = .ok (some (a, ids')) := hback
    rw [hnext, List.getLast?_concat]
    rfl

/-- The least and the greatest of an ascending list. -/
theorem min?_of_pairwise {l : List Nat} (h : l.Pairwise (· < ·)) : l.min? = l.head? := by
  cases l with
  | nil => rfl
  | cons a l =>
    rw [List.head?_cons, List.min?_eq_some_iff]
    refine ⟨List.mem_cons_self, fun b hb => ?_⟩
    rcases List.mem_cons.mp hb with rfl | hb
    · exact le_rfl
    · exact (List.rel_of_pairwise_cons h hb).le

theorem max?_of_pairwise {l : List Nat} (h : l.Pairwise (· < ·)) : l.max? = l.getLast? := by
  rcases List.eq_nil_or_concat' l with rfl | ⟨l, a, rfl⟩
  · rfl
  · rw [List.getLast?_concat, List.max?_eq_some_iff]
    refine ⟨List.mem_append_right _ List.mem_cons_self, fun b hb => ?_⟩
    rcases List.mem_append.mp hb with hb | hb
    · exact ((List.pairwise_append.mp h).2.2 b hb a List.mem_cons_self).le
    · exact (List.mem_singleton.mp hb).le

theorem Holds.summarized (h : ids.Holds items) : ids.Summarized items where
  front fuel hfuel := views.collect_spec .front fuel h (h.sizeHint ▸ hfuel)
  back fuel hfuel := views.collect_spec .back fuel h (h.sizeHint ▸ hfuel)
  count := h.sizeHint
  last := h.nextBack
  min := by rw [HartIds.min, h.next, min?_of_pairwise h.pairwise]
  max := by rw [HartIds.max, h.nextBack, max?_of_pairwise h.pairwise]

end HartIds

variable {mask : HartMask xlen}

theorem HartMask.Fits.holds (h : mask.Fits) :
    mask.iter.Holds ((setBits mask.hartMask).map (· + mask.hartMaskBase)) := by
  rw [iter_ordinary h.ordinary]
  exact ⟨rfl, h.words⟩

theorem HartMask.Fits.coherent (h : mask.Fits) : mask.Coherent := by
  have hall := h.holds
  -- Every walk from the start, by the list that it splits.
  have hwalks : ∀ turns items rest, HartIds.ends.walk turns mask.iter = .ok (items, rest) →
      ∃ ids, rest.Holds ids ∧ (setBits mask.hartMask).map (· + mask.hartMaskBase) =
        itemsAt .front items ++ ids ++ (itemsAt .back items).reverse := by
    intro turns items rest hwalk
    obtain ⟨items', rest', ids, hwalk', hrest, hsplit, -⟩ := HartIds.views.walk_spec turns hall
    rw [hwalk] at hwalk'
    cases hwalk'
    exact ⟨ids, hrest, hsplit⟩
  refine ⟨fun turns => ?_, ?_, ?_, ?_⟩
  · obtain ⟨items, rest, ids, hwalk, hrest, hsplit, hlength⟩ := HartIds.views.walk_spec turns hall
    refine ⟨items, rest, hwalk, ?_, hrest.ordered, fun hturns => ?_⟩
    · have hnodup : ((setBits mask.hartMask).map (· + mask.hartMaskBase)).Nodup :=
        hall.pairwise.imp fun hlt => hlt.ne
      rw [(perm_itemsAt items).nodup_iff]
      rw [hsplit, List.append_assoc] at hnodup
      refine hnodup.sublist ?_
      exact List.Sublist.append_left (List.sublist_append_right _ _) _
    · rw [HartIds.views.exhausted_iff hrest, ← List.length_eq_zero_iff, hlength]
      rw [hall.sizeHint] at hturns
      omega
  · intro turns items rest hwalk hdone hartId
    obtain ⟨ids, hrest, hsplit⟩ := hwalks turns items rest hwalk
    rw [HartIds.views.exhausted_iff hrest] at hdone
    rw [hdone, List.append_nil] at hsplit
    rw [(perm_itemsAt items).mem_iff, ← hsplit, List.mem_map]
    constructor
    · rintro ⟨i, hi, rfl⟩
      exact ⟨h.words i hi, .inr ⟨i, mem_setBits_iff.mp hi, Nat.add_comm _ _⟩⟩
    · rintro ⟨-, heq | ⟨i, hi, rfl⟩⟩
      · exact absurd heq h.ordinary
      · exact ⟨i, mem_setBits_iff.mpr hi, Nat.add_comm _ _⟩
  · intro turns items rest hwalk more items' rest' hmore hdone
    obtain ⟨ids, hrest, -⟩ := hwalks turns items rest hwalk
    obtain ⟨items₂, rest₂, ids', hwalk₂, hrest', hsplit, -⟩ := HartIds.views.walk_spec more hrest
    rw [hmore] at hwalk₂
    cases hwalk₂
    rw [HartIds.views.exhausted_iff hrest'] at hdone
    have hlength := congrArg List.length hsplit
    have hperm := (perm_itemsAt items').length_eq
    rw [hdone, List.append_nil] at hlength
    rw [hrest.sizeHint, hlength, ← hperm, List.length_map]
  · intro turns items rest hwalk
    obtain ⟨ids, hrest, -⟩ := hwalks turns items rest hwalk
    exact ⟨ids, hrest.summarized⟩

/-! ## The other masks -/

theorem HartIds.collect_front (fuel : Nat) (ids : HartIds xlen) :
    HartIds.ends.collect .front fuel ids = ids.collect fuel := by
  induction fuel generalizing ids with
  | zero => rfl
  | succ fuel ih =>
    rw [Iter.collect, HartIds.collect, Iter.call, HartIds.ends]
    dsimp only
    rcases ids.next with panic | (_ | ⟨hartId, rest⟩)
    · rfl
    · rfl
    · dsimp only
      rw [← ih rest]
      rfl

/-- A mask that is coherent names only words, and is not that of every hart: the back of the
range for every hart gives the last hart id, which its front never reaches. -/
theorem HartMask.Coherent.fits (h : mask.Coherent) : mask.Fits := by
  obtain ⟨ids, hids⟩ := h.summaries [] [] mask.iter rfl
  have hfront := hids.front _ le_rfl
  rw [HartIds.collect_front] at hfront
  have hbase : mask.hartMaskBase ≠ xlen.usizeMax := by
    intro hall
    have hnot := last_not_mem_iter hall (hfront : mask.iter.toList = .ok ids)
    have hlast := hids.last
    have hpos : 0 < xlen.usizeMax := by cases xlen <;> decide
    rw [HartMask.iter, if_pos hall, HartIds.last, HartIds.nextBack, if_neg (by omega),
      if_pos hpos] at hlast
    exact hnot (List.mem_of_getLast? (Except.ok.inj hlast).symm)
  refine ⟨hbase, fun i hi => ?_⟩
  by_contra hover
  have hpanic : mask.iter.toList = .error .addOverflow := by
    rw [iter_ordinary hbase]
    exact HartIds.toList_overflows _ _ hi (Nat.le_of_not_lt hover)
  rw [HartIds.toList, hfront] at hpanic
  cases hpanic

/-- The iterator of a mask is coherent at both ends exactly when the base is not that of every
hart and every set bit stands for a hart id that is a word. -/
theorem coherent_iff (hartMask hartMaskBase : BitVec xlen.bits) :
    (HartMask.fromMaskBase hartMask hartMaskBase).Coherent ↔
      hartMaskBase.toNat ≠ xlen.usizeMax ∧
        ∀ i, hartMask.getLsbD i = true → hartMaskBase.toNat + i < xlen.words := by
  constructor
  · intro h
    refine ⟨h.fits.ordinary, fun i hi => ?_⟩
    rw [Nat.add_comm]
    exact h.fits.words i (mem_setBits_iff.mpr hi)
  · rintro ⟨hordinary, hwords⟩
    refine HartMask.Fits.coherent ⟨hordinary, fun i hi => ?_⟩
    rw [Nat.add_comm]
    exact hwords i (mem_setBits_iff.mp hi)

/-- The mask of every hart gives the last hart id at the back, and the front never comes to it. -/
theorem all_harts_incoherent :
    let all := HartMask.fromMaskBase 0#(Xlen.rv64.bits) (BitVec.allOnes Xlen.rv64.bits)
    ¬ all.Coherent ∧ all.iter.last = .ok (some Xlen.rv64.usizeMax) ∧
      ∀ ids, all.iter.toList = .ok ids → Xlen.rv64.usizeMax ∉ ids := by
  refine ⟨fun h => h.fits.ordinary (by decide), by decide, fun ids hids => ?_⟩
  exact last_not_mem_iter (by decide) hids

end RustSbi.Ipi
