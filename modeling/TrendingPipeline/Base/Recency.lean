/- Unit: TrendingPipeline/Base/Recency
   source: none (lists kept in order of last use)
   digest: Moving to the front, cut after every move or once at the end. -/

import Mathlib.Data.Finset.Dedup
import Mathlib.Data.Finset.Card
import Mathlib.Data.List.Lattice

set_option autoImplicit false
set_option relaxedAutoImplicit false

namespace TrendingPipeline.Base.Recency

variable {α : Type} [DecidableEq α]

def moveToFront (x : α) (l : List α) : List α := x :: l.filter (· ≠ x)

/-- The different ones of a list of uses, by their last use, newest first. -/
def byLastUse (uses : List α) : List α := uses.dedup.reverse

/-- How many uses followed the last one of `x`. -/
def age (uses : List α) (x : α) : ℕ := uses.reverse.idxOf x

theorem nodup_byLastUse (uses : List α) : (byLastUse uses).Nodup :=
  List.nodup_reverse.mpr uses.nodup_dedup

@[simp] theorem mem_byLastUse {uses : List α} {x : α} : x ∈ byLastUse uses ↔ x ∈ uses := by
  simp [byLastUse]

private theorem dedup_concat (uses : List α) (x : α) :
    (uses ++ [x]).dedup = uses.dedup.filter (· ≠ x) ++ [x] := by
  induction uses with
  | nil => simp
  | cons y uses ih =>
      rw [List.cons_append]
      by_cases hmem : y ∈ uses
      · rw [List.dedup_cons_of_mem hmem, List.dedup_cons_of_mem (List.mem_append_left _ hmem), ih]
      · rw [List.dedup_cons_of_notMem hmem]
        by_cases hyx : y = x
        · subst hyx
          rw [List.dedup_cons_of_mem (by simp), ih, List.filter_cons_of_neg (by simp)]
        · rw [List.dedup_cons_of_notMem (by simp [hmem, hyx]), ih,
            List.filter_cons_of_pos (by simpa using hyx), List.cons_append]

theorem byLastUse_concat (uses : List α) (x : α) :
    byLastUse (uses ++ [x]) = moveToFront x (byLastUse uses) := by
  rw [byLastUse, dedup_concat, List.reverse_append, ← List.filter_reverse]
  rfl

private theorem age_concat_self (uses : List α) (x : α) : age (uses ++ [x]) x = 0 := by
  simp [age]

private theorem age_concat_of_ne (uses : List α) {x y : α} (h : y ≠ x) :
    age (uses ++ [x]) y = age uses y + 1 := by
  simp [age, List.idxOf_cons_ne _ h.symm]

theorem pairwise_age (uses : List α) :
    (byLastUse uses).Pairwise fun x y => age uses x < age uses y := by
  induction uses using List.reverseRecOn with
  | nil => exact List.Pairwise.nil
  | append_singleton uses x ih =>
      rw [byLastUse_concat, moveToFront, List.pairwise_cons]
      constructor
      · intro y hy
        have hne : y ≠ x := by simpa using (List.mem_filter.mp hy).2
        rw [age_concat_self, age_concat_of_ne uses hne]
        exact Nat.succ_pos _
      · refine (ih.filter _).imp_of_mem fun {y z} hy hz hlt => ?_
        have hyx : y ≠ x := by simpa using (List.mem_filter.mp hy).2
        have hzx : z ≠ x := by simpa using (List.mem_filter.mp hz).2
        rw [age_concat_of_ne uses hyx, age_concat_of_ne uses hzx]
        exact Nat.succ_lt_succ hlt

private theorem take_filter_take (x : α) {l : List α} (hl : l.Nodup) (n : ℕ) :
    ((l.take (n + 1)).filter (· ≠ x)).take n = (l.filter (· ≠ x)).take n := by
  induction l generalizing n with
  | nil => rfl
  | cons y l ih =>
      obtain ⟨hy, hnodup⟩ := List.nodup_cons.mp hl
      rw [List.take_succ_cons]
      by_cases hyx : y = x
      · subst hyx
        have hkeep : ∀ m, (l.take m).filter (· ≠ y) = l.take m := fun m =>
          List.filter_eq_self.mpr fun z hz => by
            have hne : z ≠ y := fun h => hy (h ▸ List.mem_of_mem_take hz)
            simpa using hne
        have hall : l.filter (· ≠ y) = l := by simpa using hkeep l.length
        rw [List.filter_cons_of_neg (by simp), List.filter_cons_of_neg (by simp), hkeep, hall,
          List.take_take, Nat.min_self]
      · rw [List.filter_cons_of_pos (by simpa using hyx),
          List.filter_cons_of_pos (by simpa using hyx)]
        cases n with
        | zero => rfl
        | succ n => rw [List.take_succ_cons, List.take_succ_cons, ih hnodup]

theorem take_moveToFront (x : α) {l : List α} (hl : l.Nodup) (n : ℕ) :
    (moveToFront x (l.take n)).take n = (moveToFront x l).take n := by
  cases n with
  | zero => rfl
  | succ n =>
      unfold moveToFront
      rw [List.take_succ_cons, List.take_succ_cons, take_filter_take x hl]

private theorem byLastUse_split (before after : List α) {x : α} (hx : x ∉ after) :
    ∃ older, byLastUse (before ++ x :: after) = byLastUse after ++ x :: older := by
  obtain ⟨t, ht⟩ := List.suffix_union_right before (x :: after.dedup)
  refine ⟨t.reverse, ?_⟩
  rw [byLastUse, List.dedup_append, List.dedup_cons_of_notMem hx, ← ht]
  simp [byLastUse]

theorem notMem_take_iff (before after : List α) {x : α} (hx : x ∉ after) (n : ℕ) :
    x ∉ (byLastUse (before ++ x :: after)).take n ↔ n ≤ after.toFinset.card := by
  obtain ⟨older, hsplit⟩ := byLastUse_split before after hx
  have hcard : after.toFinset.card = (byLastUse after).length := by
    rw [List.card_toFinset, byLastUse, List.length_reverse]
  have hfresh : x ∉ byLastUse after := mem_byLastUse.not.mpr hx
  rw [hsplit, hcard]
  constructor
  · intro hmissing
    by_contra hshort
    obtain ⟨k, hk⟩ : ∃ k, n - (byLastUse after).length = k + 1 :=
      ⟨n - (byLastUse after).length - 1, by omega⟩
    refine hmissing ?_
    rw [List.take_append, hk, List.take_succ_cons]
    exact List.mem_append_right _ List.mem_cons_self
  · intro hle
    rw [List.take_append_of_le_length hle]
    exact fun hmem => hfresh (List.mem_of_mem_take hmem)

end TrendingPipeline.Base.Recency
