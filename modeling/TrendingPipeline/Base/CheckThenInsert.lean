/- Unit: TrendingPipeline/Base/CheckThenInsert
   source: none (general)
   digest: Callers who look a key up and then insert it under a uniqueness constraint. -/

import Mathlib.Data.Multiset.Replicate
import Mathlib.Tactic.Common

set_option autoImplicit false
set_option relaxedAutoImplicit false

namespace TrendingPipeline.Base.CheckThenInsert

universe u

variable {ι : Type u}

inductive Verdict (ι : Type u)
  | failed
  | existing (id : ι)
  | created (id : ι)
  deriving DecidableEq

/-- The holder of the key, the callers between their lookup and their insert, and
what has been told so far. -/
structure Race (ι : Type u) where
  holder : Option ι
  pending : ℕ
  told : Multiset (Verdict ι)

/-- The steps of the callers in any order; nothing but the constraint fails. -/
inductive Steps : Race ι → Race ι → Prop
  | quiet (r : Race ι) : Steps r r
  | hit (id : ι) (n : ℕ) (told : Multiset (Verdict ι)) :
      Steps ⟨some id, n, told⟩ ⟨some id, n, .existing id ::ₘ told⟩
  | miss (n : ℕ) (told : Multiset (Verdict ι)) : Steps ⟨none, n, told⟩ ⟨none, n + 1, told⟩
  | win (id : ι) (n : ℕ) (told : Multiset (Verdict ι)) :
      Steps ⟨none, n + 1, told⟩ ⟨some id, n, .created id ::ₘ told⟩
  | lose (id : ι) (n : ℕ) (told : Multiset (Verdict ι)) :
      Steps ⟨some id, n + 1, told⟩ ⟨some id, n, .failed ::ₘ told⟩

/-- One caller was told it made the holder, and all others that the holder exists. -/
def Agreed (r : Race ι) : Prop :=
  ∃ id n, r.holder = some id ∧ r.told = .created id ::ₘ Multiset.replicate n (.existing id)

/-- At most one caller has missed, and no longer once there is a holder. -/
def Orderly (r : Race ι) : Prop :=
  (r.holder = none ∧ r.pending ≤ 1 ∧ r.told = 0) ∨ r.pending = 0 ∧ Agreed r

def Spoilt (r : Race ι) : Prop :=
  .failed ∈ r.told ∨ 2 ≤ r.pending ∨ r.holder.isSome = true ∧ 1 ≤ r.pending

def Taken (r : Race ι) : Prop :=
  r.pending = 0 ∧ ∃ id, r.holder = some id ∧ ∀ v ∈ r.told, v = .existing id

variable {r r' : Race ι}

theorem Orderly.step (h : Orderly r) (hstep : Steps r r')
    (halone : r.pending < r'.pending → r.pending = 0) : Orderly r' := by
  cases hstep with
  | quiet => exact h
  | hit id n told =>
      rcases h with ⟨hnone, -⟩ | ⟨hzero, id', m, hsome, htold⟩
      · cases hnone
      · obtain rfl : id = id' := Option.some.inj hsome
        refine .inr ⟨hzero, id, m + 1, rfl, ?_⟩
        change _ ::ₘ told = _
        rw [show told = _ from htold, Multiset.replicate_succ, Multiset.cons_swap]
  | miss n told =>
      have hzero : n = 0 := halone (Nat.lt_succ_self n)
      rcases h with ⟨-, -, htold⟩ | ⟨-, id, m, hsome, -⟩
      · exact .inl ⟨rfl, by change n + 1 ≤ 1; omega, htold⟩
      · cases hsome
  | win id n told =>
      rcases h with ⟨-, hle, htold⟩ | ⟨hzero, -⟩
      · have hle' : n + 1 ≤ 1 := hle
        refine .inr ⟨by change n = 0; omega, id, 0, rfl, ?_⟩
        change _ ::ₘ told = _
        rw [show told = 0 from htold]
        rfl
      · cases hzero
  | lose id n told =>
      rcases h with ⟨hnone, -⟩ | ⟨hzero, -⟩
      · cases hnone
      · cases hzero

theorem Spoilt.of_miss (h : Orderly r) (hstep : Steps r r') (hmiss : r.pending < r'.pending)
    (hpending : r.pending ≠ 0) : Spoilt r' := by
  cases hstep with
  | miss n told =>
      have hne : n ≠ 0 := hpending
      exact .inr (.inl (by change 2 ≤ n + 1; omega))
  | quiet => omega
  | hit => exact absurd hmiss (lt_irrefl _)
  | win id n told => exact absurd hmiss (by change ¬ n + 1 < n; omega)
  | lose id n told => exact absurd hmiss (by change ¬ n + 1 < n; omega)

theorem Spoilt.step (h : Spoilt r) (hstep : Steps r r') : Spoilt r' := by
  cases hstep with
  | quiet => exact h
  | hit id n told => exact h.imp_left (Multiset.mem_cons_of_mem ·)
  | miss n told =>
      rcases h with h | h | ⟨h, -⟩
      · exact .inl h
      · exact .inr (.inl (Nat.le_succ_of_le h))
      · cases h
  | win id n told =>
      rcases h with h | h | ⟨h, -⟩
      · exact .inl (Multiset.mem_cons_of_mem h)
      · have hle : 2 ≤ n + 1 := h
        exact .inr (.inr ⟨rfl, by change 1 ≤ n; omega⟩)
      · cases h
  | lose id n told => exact .inl (Multiset.mem_cons_self _ _)

theorem Taken.step (h : Taken r) (hstep : Steps r r') : Taken r' := by
  cases hstep with
  | quiet => exact h
  | hit id n told =>
      obtain ⟨hzero, id', hsome, htold⟩ := h
      obtain rfl : id = id' := Option.some.inj hsome
      refine ⟨hzero, id, rfl, ?_⟩
      intro v hv
      rcases Multiset.mem_cons.mp hv with rfl | hv
      · rfl
      · exact htold v hv
  | miss n told =>
      obtain ⟨-, id, hsome, -⟩ := h
      cases hsome
  | win id n told => exact absurd h.1 (Nat.succ_ne_zero n)
  | lose id n told => exact absurd h.1 (Nat.succ_ne_zero n)

/-- Once nobody is pending, an orderly race in which anyone asked ends in agreement. -/
theorem Orderly.agreed (h : Orderly r) (htold : r.told ≠ 0) : Agreed r := by
  rcases h with ⟨-, -, hzero⟩ | ⟨-, hagreed⟩
  · exact absurd hzero htold
  · exact hagreed

theorem Spoilt.not_agreed (h : Spoilt r) (hpending : r.pending = 0) : ¬ Agreed r := by
  rintro ⟨id, n, -, htold⟩
  have hfailed : .failed ∈ r.told := by
    rcases h with h | h | ⟨-, h⟩
    · exact h
    · omega
    · omega
  rw [htold] at hfailed
  rcases Multiset.mem_cons.mp hfailed with h | h
  · cases h
  · cases Multiset.eq_of_mem_replicate h

theorem Taken.not_agreed (h : Taken r) : ¬ Agreed r := by
  rintro ⟨id, n, -, htold⟩
  obtain ⟨-, id', -, hall⟩ := h
  cases hall (.created id) (htold ▸ Multiset.mem_cons_self _ _)

end TrendingPipeline.Base.CheckThenInsert
