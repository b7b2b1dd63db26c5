/- Unit: TrendingPipeline/Base/Holdings
   source: none (general)
   digest: What the holders of a list hold together, each of them at most one thing. -/

import Mathlib.Algebra.BigOperators.Group.List.Basic
import Mathlib.Algebra.Order.Group.Multiset
import Mathlib.Data.List.Perm.Basic

set_option autoImplicit false
set_option relaxedAutoImplicit false

namespace TrendingPipeline.Base.Holdings

universe u v

variable {α : Type u} {β : Type v} {f : α → Option β}

/-- Everything the holders hold, without regard to who holds it. -/
def holdings (f : α → Option β) (l : List α) : Multiset β := ↑(l.filterMap f)

theorem holdings_append (l l' : List α) :
    holdings f (l ++ l') = holdings f l + holdings f l' := by
  simp only [holdings, List.filterMap_append, ← Multiset.coe_add]

theorem holdings_append_none {l : List α} {x : α} (hx : f x = none) :
    holdings f (l ++ [x]) = holdings f l := by
  simp [holdings, hx]

theorem holdings_eq_zero {l : List α} (h : ∀ x ∈ l, f x = none) : holdings f l = 0 := by
  simp only [holdings, Multiset.coe_eq_zero, List.filterMap_eq_nil_iff]
  exact h

theorem mem_holdings {l : List α} {b : β} : b ∈ holdings f l ↔ ∃ x ∈ l, f x = some b := by
  simp [holdings]

theorem countP_holdings (p : β → Prop) [DecidablePred p] (l : List α) :
    (holdings f l).countP p = l.countP fun x => (f x).any fun b => decide (p b) := by
  rw [holdings, Multiset.coe_countP, List.countP_filterMap]
  refine List.countP_congr ?_
  intro x _
  cases f x <;> simp

variable {l : List α} {i : ℕ} {x : α}

private theorem perm_set (h : l[i]? = some x) (y : α) :
    ∃ others, l.Perm (x :: others) ∧ (l.set i y).Perm (y :: others) := by
  obtain ⟨hi, rfl⟩ := List.getElem?_eq_some_iff.mp h
  exact ⟨l.eraseIdx i, (List.getElem_cons_eraseIdx_perm hi).symm, List.set_perm_cons_eraseIdx hi y⟩

theorem mem_set_of_ne (h : l[i]? = some x) {y z : α} (hz : z ∈ l) (hne : z ≠ x) :
    z ∈ l.set i y := by
  obtain ⟨others, hold, hnew⟩ := perm_set h y
  rcases List.mem_cons.mp (hold.mem_iff.mp hz) with hx | hz
  · exact absurd hx hne
  · exact hnew.mem_iff.mpr (List.mem_cons_of_mem y hz)

theorem sum_map_set {M : Type v} [AddCommMonoid M] (h : l[i]? = some x) (y : α) (g : α → M) :
    ∃ rest, (l.map g).sum = g x + rest ∧ ((l.set i y).map g).sum = g y + rest := by
  obtain ⟨others, hold, hnew⟩ := perm_set h y
  refine ⟨(others.map g).sum, ?_, ?_⟩
  · rw [(hold.map g).sum_eq, List.map_cons, List.sum_cons]
  · rw [(hnew.map g).sum_eq, List.map_cons, List.sum_cons]

theorem countP_set (h : l[i]? = some x) (y : α) (p : α → Bool) :
    ∃ rest, l.countP p = rest + (if p x then 1 else 0) ∧
      (l.set i y).countP p = rest + (if p y then 1 else 0) := by
  obtain ⟨others, hold, hnew⟩ := perm_set h y
  refine ⟨others.countP p, ?_, ?_⟩
  · rw [hold.countP_eq, List.countP_cons]
  · rw [hnew.countP_eq, List.countP_cons]

private theorem holdings_set (h : l[i]? = some x) (y : α) :
    ∃ rest, holdings f l = ↑(f x).toList + rest ∧
      holdings f (l.set i y) = ↑(f y).toList + rest := by
  obtain ⟨others, hold, hnew⟩ := perm_set h y
  refine ⟨holdings f others, ?_, ?_⟩
  · rw [holdings, Multiset.coe_eq_coe.mpr (hold.filterMap f), List.filterMap_cons]
    cases f x <;> rfl
  · rw [holdings, Multiset.coe_eq_coe.mpr (hnew.filterMap f), List.filterMap_cons]
    cases f y <;> rfl

theorem holdings_set_same (h : l[i]? = some x) {y : α} (hsame : f y = f x) :
    holdings f (l.set i y) = holdings f l := by
  obtain ⟨rest, hold, hnew⟩ := holdings_set (f := f) h y
  rw [hold, hnew, hsame]

theorem holdings_set_take (h : l[i]? = some x) {y : α} {b : β} (hx : f x = none)
    (hy : f y = some b) : holdings f (l.set i y) = b ::ₘ holdings f l := by
  obtain ⟨rest, hold, hnew⟩ := holdings_set (f := f) h y
  rw [hold, hnew, hx, hy]
  simp

theorem holdings_set_drop (h : l[i]? = some x) {y : α} {b : β} (hx : f x = some b)
    (hy : f y = none) : holdings f l = b ::ₘ holdings f (l.set i y) := by
  obtain ⟨rest, hold, hnew⟩ := holdings_set (f := f) h y
  rw [hold, hnew, hx, hy]
  simp

theorem holdings_set_swap (h : l[i]? = some x) {y : α} {b c : β} (hx : f x = some b)
    (hy : f y = some c) :
    ∃ rest, holdings f l = b ::ₘ rest ∧ holdings f (l.set i y) = c ::ₘ rest := by
  obtain ⟨rest, hold, hnew⟩ := holdings_set (f := f) h y
  refine ⟨rest, ?_, ?_⟩
  · rw [hold, hx]
    simp
  · rw [hnew, hy]
    simp

end TrendingPipeline.Base.Holdings
