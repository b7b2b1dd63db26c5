/- Unit: TrendingPipeline/Base/Settling
   source: none (general)
   digest: Runs whose steps replace a task by smaller ones come to an end. -/

import Mathlib.Data.Multiset.DershowitzManna
import Mathlib.Order.WellFounded
import TrendingPipeline.Base.Runs

/-!
What is left to do is a multiset of ranked tasks. A step that replaces one task by any
number of smaller ones lowers it in the multiset order, which is well founded; so there is
no endless run of such steps, and an endless run leaves them again and again.
-/

set_option autoImplicit false
set_option relaxedAutoImplicit false

namespace TrendingPipeline.Base.Settling

open Relation (ReflTransGen)
open Multiset (IsDershowitzMannaLT wellFounded_isDershowitzMannaLT)
open TrendingPipeline.Base.Runs (Next)

universe u v w

section Tasks

variable {ρ : Type u} [Preorder ρ] {rest new : Multiset ρ}

private theorem lt_of_replaced {a : ρ} (h : ∀ b ∈ new, b < a) :
    IsDershowitzMannaLT (new + rest) (a ::ₘ rest) := by
  refine ⟨rest, new, {a}, Multiset.singleton_ne_zero a, add_comm new rest, ?_, ?_⟩
  · rw [← Multiset.singleton_add, add_comm]
  · intro b hb
    exact ⟨a, Multiset.mem_singleton_self a, h b hb⟩

theorem lt_of_done (a : ρ) (rest : Multiset ρ) : IsDershowitzMannaLT rest (a ::ₘ rest) := by
  have hlt : IsDershowitzMannaLT (0 + rest) (a ::ₘ rest) :=
    lt_of_replaced fun _ hb => absurd hb (Multiset.notMem_zero _)
  rwa [zero_add] at hlt

theorem lt_of_smaller {a b : ρ} (h : b < a) (rest : Multiset ρ) :
    IsDershowitzMannaLT (b ::ₘ rest) (a ::ₘ rest) := by
  have hlt : IsDershowitzMannaLT ({b} + rest) (a ::ₘ rest) := by
    refine lt_of_replaced fun c hc => ?_
    rw [Multiset.mem_singleton.mp hc]
    exact h
  rwa [Multiset.singleton_add] at hlt

theorem lt_of_dropped (h : rest ≠ 0) : IsDershowitzMannaLT 0 rest :=
  ⟨0, 0, rest, h, (add_zero 0).symm, (zero_add rest).symm,
    fun _ hb => absurd hb (Multiset.notMem_zero _)⟩

end Tasks

variable {σ : Type u} {α : Type v} {step : σ → α → Option σ} {ok : σ → α → Prop}

def Stuck (step : σ → α → Option σ) (ok : σ → α → Prop) (s : σ) : Prop :=
  ∀ a, ok s a → step s a = none

private theorem not_stuck_iff {s : σ} : ¬ Stuck step ok s ↔ ∃ t, Next step ok s t := by
  unfold Stuck Next
  constructor
  · intro h
    obtain ⟨a, ha⟩ := not_forall.mp h
    obtain ⟨hok, hstep⟩ := Classical.not_imp.mp ha
    obtain ⟨t, ht⟩ := Option.ne_none_iff_exists'.mp hstep
    exact ⟨t, a, hok, ht⟩
  · rintro ⟨t, a, hok, ht⟩ hstuck
    rw [hstuck a hok] at ht
    cases ht

section Descent

variable {ρ : Type w} [Preorder ρ] [WellFoundedLT ρ] {tasks : σ → Multiset ρ}

private theorem wellFounded_next
    (h : ∀ s a t, ok s a → step s a = some t → IsDershowitzMannaLT (tasks t) (tasks s)) :
    WellFounded fun t s => Next step ok s t := by
  have hsub : Subrelation (fun t s => Next step ok s t)
      (InvImage IsDershowitzMannaLT tasks) := by
    rintro t s ⟨a, hok, hstep⟩
    exact h s a t hok hstep
  exact hsub.wf (InvImage.wf tasks wellFounded_isDershowitzMannaLT)

theorem exists_stuck
    (h : ∀ s a t, ok s a → step s a = some t → IsDershowitzMannaLT (tasks t) (tasks s)) (s : σ) :
    ∃ t, ReflTransGen (Next step ok) s t ∧ Stuck step ok t := by
  induction s using (wellFounded_next h).induction with
  | _ s ih =>
      by_cases hstuck : Stuck step ok s
      · exact ⟨s, .refl, hstuck⟩
      · obtain ⟨m, hm⟩ := not_stuck_iff.mp hstuck
        obtain ⟨t, hpath, ht⟩ := ih m hm
        exact ⟨t, .head hm hpath, ht⟩

theorem not_next_forever
    (h : ∀ s a t, ok s a → step s a = some t → IsDershowitzMannaLT (tasks t) (tasks s))
    (states : ℕ → σ) : ¬ ∀ n, Next step ok (states n) (states (n + 1)) := by
  have hwf : IsWellFounded σ fun t s => Next step ok s t := ⟨wellFounded_next h⟩
  obtain ⟨n, hn⟩ := WellFounded.not_rel_apply_succ (r := fun t s => Next step ok s t) states
  exact fun hall => hn (hall n)

end Descent

end TrendingPipeline.Base.Settling
