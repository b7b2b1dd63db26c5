/- Unit: TrendingPipeline/Base/ArraySort
   source: none (ECMAScript's Array.prototype.sort)
   digest: What a sort with a comparator promises, and which orders it then brings about. -/

import Mathlib.Data.Int.Order.Basic
import Mathlib.Data.List.Pairwise
import Mathlib.Data.List.Perm.Basic
import Mathlib.Order.Basic

set_option autoImplicit false
set_option relaxedAutoImplicit false

namespace TrendingPipeline.Base.ArraySort

universe u

variable {α : Type u} {cmp : α → α → ℤ} {l : List α}

/-- A consistent comparator for the elements of a list. A comparator that answers NaN
answers zero. -/
structure Consistent (cmp : α → α → ℤ) (l : List α) : Prop where
  refl : ∀ a ∈ l, cmp a a = 0
  symm : ∀ a ∈ l, ∀ b ∈ l, cmp a b = 0 → cmp b a = 0
  eq_trans : ∀ a ∈ l, ∀ b ∈ l, ∀ c ∈ l, cmp a b = 0 → cmp b c = 0 → cmp a c = 0
  lt_trans : ∀ a ∈ l, ∀ b ∈ l, ∀ c ∈ l, cmp a b < 0 → cmp b c < 0 → cmp a c < 0
  gt_trans : ∀ a ∈ l, ∀ b ∈ l, ∀ c ∈ l, 0 < cmp a b → 0 < cmp b c → 0 < cmp a c

private theorem Consistent.neg_of_pos (h : Consistent cmp l) {a b : α} (ha : a ∈ l) (hb : b ∈ l)
    (hpos : 0 < cmp a b) : cmp b a < 0 := by
  rcases lt_trichotomy (cmp b a) 0 with hneg | hzero | hpos'
  · exact hneg
  · exact absurd (h.symm b hb a ha hzero) hpos.ne'
  · exact absurd (h.refl a ha) (h.gt_trans a ha b hb a ha hpos hpos').ne'

private theorem Consistent.pos_of_neg (h : Consistent cmp l) {a b : α} (ha : a ∈ l) (hb : b ∈ l)
    (hneg : cmp a b < 0) : 0 < cmp b a := by
  rcases lt_trichotomy (cmp b a) 0 with hneg' | hzero | hpos
  · exact absurd (h.refl a ha) (h.lt_trans a ha b hb a ha hneg hneg').ne
  · exact absurd (h.symm b hb a ha hzero) hneg.ne
  · exact hpos

theorem Consistent.le_total (h : Consistent cmp l) {a b : α} (ha : a ∈ l) (hb : b ∈ l) :
    cmp a b ≤ 0 ∨ cmp b a ≤ 0 := by
  rcases le_or_gt (cmp a b) 0 with hle | hpos
  · exact .inl hle
  · exact .inr (h.neg_of_pos ha hb hpos).le

theorem Consistent.le_trans (h : Consistent cmp l) {a b c : α} (ha : a ∈ l) (hb : b ∈ l)
    (hc : c ∈ l) (hab : cmp a b ≤ 0) (hbc : cmp b c ≤ 0) : cmp a c ≤ 0 := by
  refine le_of_not_gt fun hpos => ?_
  have hca : cmp c a < 0 := h.neg_of_pos ha hc hpos
  rcases hab.lt_or_eq with hab | hab
  · -- c < a < b
    have hcb : cmp c b < 0 := h.lt_trans c hc a ha b hb hca hab
    exact absurd hbc (not_le.mpr (h.pos_of_neg hc hb hcb))
  · rcases hbc.lt_or_eq with hbc | hbc
    · -- b < c < a
      have hba : cmp b a < 0 := h.lt_trans b hb c hc a ha hbc hca
      exact absurd (h.symm a ha b hb hab) hba.ne
    · exact absurd (h.eq_trans a ha b hb c hc hab hbc) hpos.ne'

/-- A list brought into the order of a comparator, equal elements in their old order. -/
structure SortedBy (cmp : α → α → ℤ) (l out : List α) : Prop where
  perm : out.Perm l
  ordered : out.Pairwise fun a b => cmp a b ≤ 0
  stable : ∀ a ∈ l, (out.filter fun b => cmp a b = 0) = l.filter fun b => cmp a b = 0

/-- A sort reorders its list, and with a consistent comparator it sorts; with another one
the order is up to the implementation. -/
structure Sorts (sort : (α → α → ℤ) → List α → List α) : Prop where
  perm : ∀ cmp l, (sort cmp l).Perm l
  sorts : ∀ cmp l, Consistent cmp l → SortedBy cmp l (sort cmp l)

/-- The merge sort of a list by a comparator that is consistent on it. -/
def mergeSorted (cmp : α → α → ℤ) (l : List α) : List α :=
  (l.attach.mergeSort fun a b => cmp a.val b.val ≤ 0).map Subtype.val

private theorem mergeSorted_perm (cmp : α → α → ℤ) (l : List α) : (mergeSorted cmp l).Perm l := by
  have hperm := (List.mergeSort_perm l.attach fun a b => cmp a.val b.val ≤ 0).map Subtype.val
  rw [List.attach_map_subtype_val] at hperm
  exact hperm

private theorem filter_mergeSort {β : Type u} {le : β → β → Bool} {l : List β} {p : β → Bool}
    (htrans : ∀ a b c, le a b = true → le b c = true → le a c = true)
    (htotal : ∀ a b, (le a b || le b a) = true)
    (hordered : (l.filter p).Pairwise fun a b => le a b = true) :
    (l.mergeSort le).filter p = l.filter p := by
  have hsublist : (l.filter p).Sublist (l.mergeSort le) :=
    List.sublist_mergeSort htrans htotal hordered List.filter_sublist
  have hfiltered := hsublist.filter p
  rw [List.filter_filter] at hfiltered
  simp only [Bool.and_self] at hfiltered
  have hlength : (l.filter p).length = ((l.mergeSort le).filter p).length :=
    ((List.mergeSort_perm l le).filter p).length_eq.symm
  exact (hfiltered.eq_of_length hlength).symm

def atMost (cmp : α → α → ℤ) {l : List α} (a b : {a // a ∈ l}) : Bool := cmp a.val b.val ≤ 0

private theorem atMost_trans (h : Consistent cmp l) (a b c : {a // a ∈ l})
    (hab : atMost cmp a b = true)
    (hbc : atMost cmp b c = true) : atMost cmp a c = true :=
  decide_eq_true (h.le_trans a.2 b.2 c.2 (of_decide_eq_true hab) (of_decide_eq_true hbc))

private theorem atMost_total (h : Consistent cmp l) (a b : {a // a ∈ l}) :
    (atMost cmp a b || atMost cmp b a) = true := by
  simp only [atMost, Bool.or_eq_true, decide_eq_true_iff]
  exact h.le_total a.2 b.2

private theorem atMost_of_equal (h : Consistent cmp l) {a : α} (ha : a ∈ l) {b c : {a // a ∈ l}}
    (hb : cmp a b.val = 0) (hc : cmp a c.val = 0) : atMost cmp b c = true :=
  decide_eq_true (h.eq_trans b.val b.2 a ha c.val c.2 (h.symm a ha b.val b.2 hb) hc).le

private theorem sortedBy_mergeSorted (h : Consistent cmp l) : SortedBy cmp l
    (mergeSorted cmp l) := by
  refine ⟨mergeSorted_perm cmp l, ?_, ?_⟩
  · refine List.pairwise_map.mpr ?_
    refine (List.pairwise_mergeSort (atMost_trans h) (atMost_total h) l.attach).imp ?_
    exact fun hle => of_decide_eq_true hle
  · intro a ha
    have hordered : (l.attach.filter fun b => cmp a b.val = 0).Pairwise
        fun b c => atMost cmp b c = true := by
      refine List.pairwise_of_forall_mem_list fun b hb c hc => ?_
      exact atMost_of_equal h ha (of_decide_eq_true (List.mem_filter.mp hb).2)
        (of_decide_eq_true (List.mem_filter.mp hc).2)
    have hstays := filter_mergeSort (atMost_trans h) (atMost_total h) hordered
    have hunder : l.filter (fun b => cmp a b = 0) =
        (l.attach.filter fun b => cmp a b.val = 0).map Subtype.val := by
      conv_lhs => rw [← List.attach_map_subtype_val l]
      rw [List.filter_map]
      rfl
    rw [hunder, ← hstays, mergeSorted, List.filter_map]
    rfl

theorem sorts_mergeSorted : Sorts (mergeSorted : (α → α → ℤ) → List α → List α) :=
  ⟨mergeSorted_perm, fun _ _ => sortedBy_mergeSorted⟩

theorem SortedBy.eq_of_equal {out : List α} (h : SortedBy cmp l out)
    (hequal : ∀ a ∈ l, ∀ b ∈ l, cmp a b = 0) : out = l := by
  cases l with
  | nil => exact h.perm.eq_nil
  | cons a l =>
      have hall : ∀ b ∈ a :: l, decide (cmp a b = 0) = true := fun b hb =>
        decide_eq_true (hequal a List.mem_cons_self b hb)
      have hsame := h.stable a List.mem_cons_self
      rw [List.filter_eq_self.mpr hall,
        List.filter_eq_self.mpr fun b hb => hall b (h.perm.mem_iff.mp hb)] at hsame
      exact hsame

section Orders

variable {le : α → α → Prop} {out : List α}

/-- What the comparator tells apart stands in the order `le`, and not the other way round. -/
def Reflects (cmp : α → α → ℤ) (le : α → α → Prop) (l : List α) : Prop :=
  ∀ a ∈ l, ∀ b ∈ l, (cmp a b < 0 → le a b ∧ ¬ le b a) ∧ (0 < cmp a b → le b a ∧ ¬ le a b)

private theorem pair_sublist_filter {p : α → Bool} {a b : α} (h : [a, b].Sublist l)
    (ha : p a = true)
    (hb : p b = true) : [a, b].Sublist (l.filter p) := by
  have hpair := h.filter p
  rwa [List.filter_eq_self.mpr (by simp [ha, hb])] at hpair

/-- A sorted list is in the order `le` as well exactly if elements that the comparator takes
for equal stood in it before. -/
private theorem SortedBy.pairwise_iff (hcmp : Consistent cmp l) (hle : Reflects cmp le l)
    (h : SortedBy cmp l out) :
    out.Pairwise le ↔ l.Pairwise fun a b => cmp a b = 0 → le a b := by
  constructor
  · intro hout
    refine List.pairwise_iff_forall_sublist.mpr ?_
    intro a b hpair hequal
    have ha : a ∈ l := hpair.subset List.mem_cons_self
    have hstays : [a, b].Sublist out := by
      have hclass := pair_sublist_filter (p := fun b => cmp a b = 0) hpair
        (decide_eq_true (hcmp.refl a ha)) (decide_eq_true hequal)
      rw [← h.stable a ha] at hclass
      exact hclass.trans List.filter_sublist
    exact List.pairwise_iff_forall_sublist.mp hout hstays
  · intro hl
    refine List.pairwise_iff_forall_sublist.mpr ?_
    intro a b hpair
    have ha : a ∈ l := h.perm.mem_iff.mp (hpair.subset List.mem_cons_self)
    have hb : b ∈ l := h.perm.mem_iff.mp (hpair.subset (by simp))
    have hab : cmp a b ≤ 0 := List.pairwise_iff_forall_sublist.mp h.ordered hpair
    rcases hab.lt_or_eq with hlt | hequal
    · exact ((hle a ha b hb).1 hlt).1
    · have hclass := pair_sublist_filter (p := fun b => cmp a b = 0) hpair
        (decide_eq_true (hcmp.refl a ha)) (decide_eq_true hequal)
      rw [h.stable a ha] at hclass
      exact List.pairwise_iff_forall_sublist.mp hl (hclass.trans List.filter_sublist) hequal

private theorem exists_disordered (hle : Reflects cmp le l) {a b : α} (ha : a ∈ l) (hb : b ∈ l)
    (hcmp : cmp a b ≠ 0) : ∃ out : List α, out.Perm l ∧ ¬ out.Pairwise le := by
  classical
  have hswapped : ∃ x ∈ l, ∃ y ∈ l, ¬ le x y ∧ le y x := by
    rcases lt_or_gt_of_ne hcmp with hlt | hgt
    · exact ⟨b, hb, a, ha, ((hle a ha b hb).1 hlt).2, ((hle a ha b hb).1 hlt).1⟩
    · exact ⟨a, ha, b, hb, ((hle a ha b hb).2 hgt).2, ((hle a ha b hb).2 hgt).1⟩
  obtain ⟨x, hx, y, hy, hnot, hyx⟩ := hswapped
  have hne : y ≠ x := by
    rintro rfl
    exact hnot hyx
  have hmem : y ∈ l.erase x := (List.mem_erase_of_ne hne).mpr hy
  refine ⟨x :: y :: (l.erase x).erase y, ?_, ?_⟩
  · exact (((List.perm_cons_erase hmem).symm).cons x).trans (List.perm_cons_erase hx).symm
  · intro hpairwise
    exact hnot (List.rel_of_pairwise_cons hpairwise List.mem_cons_self)

private theorem consistent_of_equal (h : ∀ a ∈ l, ∀ b ∈ l, cmp a b = 0) : Consistent cmp l where
  refl a ha := h a ha a ha
  symm a ha b hb _ := h b hb a ha
  eq_trans a ha _ _ c hc _ _ := h a ha c hc
  lt_trans a ha b hb _ _ hab _ := absurd (h a ha b hb) hab.ne
  gt_trans a ha b hb _ _ hab _ := absurd (h a ha b hb) hab.ne'

open Classical in
/-- An implementation that sorts, but for one comparator on one list. -/
noncomputable def exceptOn (cmp : α → α → ℤ) (l bad : List α) (cmp' : α → α → ℤ) (l' : List α) :
    List α :=
  if cmp' = cmp ∧ l' = l then bad else mergeSorted cmp' l'

private theorem exceptOn_self (cmp : α → α → ℤ) (l bad : List α) : exceptOn cmp l bad cmp l = bad :=
  if_pos ⟨rfl, rfl⟩

private theorem sorts_exceptOn {bad : List α} (hperm : bad.Perm l) (hnot : ¬ Consistent cmp l) :
    Sorts (exceptOn cmp l bad) := by
  constructor
  · intro cmp' l'
    by_cases hsame : cmp' = cmp ∧ l' = l
    · rw [exceptOn, if_pos hsame, hsame.2]
      exact hperm
    · rw [exceptOn, if_neg hsame]
      exact mergeSorted_perm cmp' l'
  · intro cmp' l' hconsistent
    have hother : ¬ (cmp' = cmp ∧ l' = l) := by
      rintro ⟨rfl, rfl⟩
      exact hnot hconsistent
    rw [exceptOn, if_neg hother]
    exact sortedBy_mergeSorted hconsistent

/-- Without a consistent comparator some implementation leaves the list out of order. -/
private theorem consistent_of_forall_sorts (hle : Reflects cmp le l)
    (hall : ∀ sort : (α → α → ℤ) → List α → List α, Sorts sort → (sort cmp l).Pairwise le) :
    Consistent cmp l := by
  by_contra hnot
  have hapart : ∃ a ∈ l, ∃ b ∈ l, cmp a b ≠ 0 := by
    by_contra hequal
    push Not at hequal
    exact hnot (consistent_of_equal hequal)
  obtain ⟨a, ha, b, hb, hne⟩ := hapart
  obtain ⟨bad, hperm, hbad⟩ := exists_disordered hle ha hb hne
  have hout := hall _ (sorts_exceptOn hperm hnot)
  rw [exceptOn_self] at hout
  exact hbad hout

/-- Whatever the implementation, the list comes into the order `le`: this needs a comparator
that is consistent on the list, and equal elements that stand in that order already. -/
theorem forall_sorts_iff (hle : Reflects cmp le l) :
    (∀ sort : (α → α → ℤ) → List α → List α, Sorts sort → (sort cmp l).Pairwise le) ↔
      Consistent cmp l ∧ l.Pairwise fun a b => cmp a b = 0 → le a b := by
  constructor
  · intro hall
    have hcmp := consistent_of_forall_sorts hle hall
    exact ⟨hcmp, ((sortedBy_mergeSorted hcmp).pairwise_iff hcmp hle).mp (hall _ sorts_mergeSorted)⟩
  · rintro ⟨hcmp, hl⟩ sort hsort
    exact ((hsort.sorts cmp l hcmp).pairwise_iff hcmp hle).mpr hl

end Orders

section Numbers

variable {f : α → Option ℤ}

/-- The comparator follows numbers, and takes NaN for equal to all. -/
def Follows (f : α → Option ℤ) (cmp : α → α → ℤ) : Prop :=
  ∀ a b, (cmp a b < 0 ↔ ∃ x ∈ f a, ∃ y ∈ f b, x < y) ∧
    (0 < cmp a b ↔ ∃ x ∈ f a, ∃ y ∈ f b, y < x)

theorem Follows.eq_zero_iff (h : Follows f cmp) {a b : α} :
    cmp a b = 0 ↔ ∀ x ∈ f a, ∀ y ∈ f b, x = y := by
  have hsplit : cmp a b = 0 ↔ ¬ cmp a b < 0 ∧ ¬ 0 < cmp a b := by
    rw [not_lt, not_lt]
    exact ⟨fun heq => ⟨heq.ge, heq.le⟩, fun hboth => le_antisymm hboth.2 hboth.1⟩
  rw [hsplit, (h a b).1, (h a b).2]
  constructor
  · rintro ⟨hlt, hgt⟩ x hx y hy
    rcases lt_trichotomy x y with hxy | hxy | hxy
    · exact absurd ⟨x, hx, y, hy, hxy⟩ hlt
    · exact hxy
    · exact absurd ⟨x, hx, y, hy, hxy⟩ hgt
  · intro hequal
    constructor
    · rintro ⟨x, hx, y, hy, hxy⟩
      exact hxy.ne (hequal x hx y hy)
    · rintro ⟨x, hx, y, hy, hxy⟩
      exact hxy.ne' (hequal x hx y hy)

/-- Such a comparator is consistent where no NaN stands among numbers it tells apart. -/
theorem Follows.consistent_iff (h : Follows f cmp) :
    Consistent cmp l ↔
      (∀ a ∈ l, (f a).isSome = true) ∨ ∀ a ∈ l, ∀ b ∈ l, ∀ x ∈ f a, ∀ y ∈ f b, x = y := by
  constructor
  · intro hcmp
    by_contra hnot
    push Not at hnot
    obtain ⟨⟨c, hc, hnan⟩, a, ha, b, hb, x, hx, y, hy, hxy⟩ := hnot
    have hnone : f c = none := by simpa using hnan
    have hac : cmp a c = 0 := h.eq_zero_iff.mpr (by simp [hnone])
    have hcb : cmp c b = 0 := h.eq_zero_iff.mpr (by simp [hnone])
    exact hxy (h.eq_zero_iff.mp (hcmp.eq_trans a ha c hc b hb hac hcb) x hx y hy)
  · rintro (hall | hequal)
    · constructor
      · intro a _
        refine h.eq_zero_iff.mpr fun x hx y hy => ?_
        exact Option.some.inj (hx.symm.trans hy)
      · intro a _ b _ hab
        exact h.eq_zero_iff.mpr fun x hx y hy => (h.eq_zero_iff.mp hab y hy x hx).symm
      · intro a _ b hb c _ hab hbc
        obtain ⟨y, hy⟩ := Option.isSome_iff_exists.mp (hall b hb)
        refine h.eq_zero_iff.mpr fun x hx z hz => ?_
        exact (h.eq_zero_iff.mp hab x hx y hy).trans (h.eq_zero_iff.mp hbc y hy z hz)
      · intro a _ b _ c _ hab hbc
        obtain ⟨x, hx, y, hy, hxy⟩ := (h a b).1.mp hab
        obtain ⟨y', hy', z, hz, hyz⟩ := (h b c).1.mp hbc
        obtain rfl := Option.some.inj (hy.symm.trans hy')
        exact (h a c).1.mpr ⟨x, hx, z, hz, hxy.trans hyz⟩
      · intro a _ b _ c _ hab hbc
        obtain ⟨x, hx, y, hy, hxy⟩ := (h a b).2.mp hab
        obtain ⟨y', hy', z, hz, hyz⟩ := (h b c).2.mp hbc
        obtain rfl := Option.some.inj (hy.symm.trans hy')
        exact (h a c).2.mpr ⟨x, hx, z, hz, hyz.trans hxy⟩
    · exact consistent_of_equal fun a ha b hb => h.eq_zero_iff.mpr (hequal a ha b hb)

end Numbers

end TrendingPipeline.Base.ArraySort
