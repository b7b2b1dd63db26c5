/- Unit: TrendingPipeline/Base/Grouping
   source: none (general)
   digest: Sums over a list, taken group by group. -/

import Mathlib.Algebra.BigOperators.Ring.Finset

set_option autoImplicit false
set_option relaxedAutoImplicit false

namespace TrendingPipeline.Base.Grouping

universe u v w

variable {α : Type u} {κ : Type v} {M : Type w} [DecidableEq κ] [AddCommMonoid M]

def fiberSum (key : α → κ) (weight : α → M) (l : List α) (k : κ) : M :=
  ((l.filter (key · = k)).map weight).sum

variable {key : α → κ} {weight : α → M}

private theorem fiberSum_cons (a : α) (l : List α) (k : κ) :
    fiberSum key weight (a :: l) k =
      (if key a = k then weight a else 0) + fiberSum key weight l k := by
  unfold fiberSum
  by_cases hkey : key a = k
  · rw [List.filter_cons_of_pos (by simpa using hkey), List.map_cons, List.sum_cons, if_pos hkey]
  · rw [List.filter_cons_of_neg (by simpa using hkey), if_neg hkey, zero_add]

private theorem sum_ite_key {keys : List κ} (hnodup : keys.Nodup) {k : κ} (hk : k ∈ keys) (m : M) :
    (keys.map fun j => if k = j then m else 0).sum = m := by
  induction keys with
  | nil => cases hk
  | cons j keys ih =>
      obtain ⟨hj, hnodup⟩ := List.nodup_cons.mp hnodup
      rw [List.map_cons, List.sum_cons]
      by_cases hkj : k = j
      · subst hkj
        have hrest : (keys.map fun j => if k = j then m else 0).sum = 0 := by
          refine List.sum_eq_zero ?_
          intro x hx
          obtain ⟨i, hi, rfl⟩ := List.mem_map.mp hx
          have hki : k ≠ i := by
            rintro rfl
            exact hj hi
          exact if_neg hki
        rw [if_pos rfl, hrest, add_zero]
      · rw [if_neg hkj, zero_add]
        exact ih hnodup ((List.mem_cons.mp hk).resolve_left hkj)

variable (key) in
theorem sum_fiberSum (weight : α → M) {keys : List κ} (hnodup : keys.Nodup) {l : List α}
    (hcover : ∀ a ∈ l, key a ∈ keys) :
    (keys.map (fiberSum key weight l)).sum = (l.map weight).sum := by
  induction l with
  | nil =>
      refine List.sum_eq_zero ?_
      intro x hx
      obtain ⟨k, -, rfl⟩ := List.mem_map.mp hx
      rfl
  | cons a l ih =>
      obtain ⟨ha, hl⟩ := List.forall_mem_cons.mp hcover
      rw [funext (fiberSum_cons a l), List.sum_map_add, sum_ite_key hnodup ha, ih hl, List.map_cons,
        List.sum_cons]

variable (key) in
theorem sum_length_filter {keys : List κ} (hnodup : keys.Nodup) {l : List α}
    (hcover : ∀ a ∈ l, key a ∈ keys) :
    (keys.map fun k => (l.filter (key · = k)).length).sum = l.length := by
  have hones : ∀ l : List α, (l.map fun _ => 1).sum = l.length := by
    intro l
    induction l with
    | nil => rfl
    | cons a l ih => rw [List.map_cons, List.sum_cons, ih, List.length_cons, Nat.add_comm]
  rw [← hones, ← sum_fiberSum key (fun _ => 1) hnodup hcover]
  exact congrArg List.sum (List.map_congr_left fun k _ => (hones _).symm)

end TrendingPipeline.Base.Grouping
