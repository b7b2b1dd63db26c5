/- Unit: TrendingPipeline/Base/Coarsening
   source: none (library)
   digest: Numbers rounded to steps that grow with the number keep their order. -/

import Mathlib.Algebra.Order.Group.Int
import Mathlib.Data.Nat.Cast.Order.Ring

set_option autoImplicit false
set_option relaxedAutoImplicit false

namespace TrendingPipeline.Base.Coarsening

/-- A multiple of `e` that is at most half of `e` away from `n`. -/
structure Near (e n v : ℕ) : Prop where
  dvd : e ∣ v
  above : 2 * v ≤ 2 * n + e
  below : 2 * n ≤ 2 * v + e

section Near

variable {e u m n v w : ℕ}

private theorem add_le_of_dvd (hv : e ∣ v) (hw : e ∣ w) (h : w < v) : w + e ≤ v := by
  obtain ⟨i, rfl⟩ := hv
  obtain ⟨j, rfl⟩ := hw
  have hij : j < i := lt_of_mul_lt_mul_left h (Nat.zero_le e)
  calc e * j + e = e * (j + 1) := (Nat.mul_succ e j).symm
    _ ≤ e * i := Nat.mul_le_mul_left e hij

theorem Near.le_of_lt (hv : Near e m v) (hw : Near e n w) (h : m < n) : v ≤ w := by
  by_contra hlt
  have hstep := add_le_of_dvd hv.dvd hw.dvd (Nat.lt_of_not_le hlt)
  have habove := hv.above
  have hbelow := hw.below
  omega

private theorem Near.le_of_lt_dvd (hv : Near e m v) (hu : e ∣ u) (h : m < u) : v ≤ u := by
  by_contra hlt
  have hstep := add_le_of_dvd hv.dvd hu (Nat.lt_of_not_le hlt)
  have habove := hv.above
  omega

private theorem Near.dvd_le_of_le (he : 0 < e) (hw : Near e n w) (hu : e ∣ u) (h : u ≤ n) :
    u ≤ w := by
  by_contra hlt
  have hstep := add_le_of_dvd hu hw.dvd (Nat.lt_of_not_le hlt)
  have hbelow := hw.below
  have hzero : e = 0 := by omega
  exact he.ne' hzero

theorem Near.self (n : ℕ) : Near 1 n n where
  dvd := one_dvd n
  above := by omega
  below := by omega

end Near

/-- The step at `n`: that of the first threshold `n` has reached, and else one. -/
def stepAt : List (ℕ × ℕ) → ℕ → ℕ
  | [], _ => 1
  | (u, e) :: grades, n => if u ≤ n then e else stepAt grades n

/-- The steps are positive, and each threshold is a multiple of its own step and of those of
the later grades. -/
def Graded : List (ℕ × ℕ) → Prop
  | [] => True
  | (u, e) :: grades => 0 < e ∧ e ∣ u ∧ (∀ g ∈ grades, g.2 ∣ u) ∧ Graded grades

private theorem stepAt_dvd {grades : List (ℕ × ℕ)} {u : ℕ} (h : ∀ g ∈ grades, g.2 ∣ u) (n : ℕ) :
    stepAt grades n ∣ u := by
  induction grades with
  | nil => exact one_dvd u
  | cons g grades ih =>
      rw [stepAt]
      split
      · exact h g List.mem_cons_self
      · exact ih fun g' hg' => h g' (List.mem_cons_of_mem g hg')

/-- Whichever of the nearest multiples is taken, a smaller number is not shown as a greater
one, also across the thresholds. -/
theorem le_of_near {grades : List (ℕ × ℕ)} (hgraded : Graded grades) {m n v w : ℕ} (h : m < n)
    (hv : Near (stepAt grades m) m v) (hw : Near (stepAt grades n) n w) : v ≤ w := by
  induction grades with
  | nil => exact hv.le_of_lt hw h
  | cons g grades ih =>
      obtain ⟨u, e⟩ := g
      obtain ⟨he, hown, hlater, hrest⟩ := hgraded
      simp only [stepAt] at hv hw
      by_cases hm : u ≤ m
      · rw [if_pos hm] at hv
        rw [if_pos (hm.trans h.le)] at hw
        exact hv.le_of_lt hw h
      · rw [if_neg hm] at hv
        by_cases hn : u ≤ n
        · rw [if_pos hn] at hw
          calc v ≤ u := hv.le_of_lt_dvd (stepAt_dvd hlater m) (Nat.lt_of_not_le hm)
            _ ≤ w := hw.dvd_le_of_le he hown hn
        · rw [if_neg hn] at hw
          exact ih hrest hv hw

end TrendingPipeline.Base.Coarsening
