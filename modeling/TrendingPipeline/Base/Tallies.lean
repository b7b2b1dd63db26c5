/- Unit: TrendingPipeline/Base/Tallies
   source: none (general)
   digest: What the steps of a run cost together, and what they put in and take out in order. -/

import TrendingPipeline.Base.Runs

set_option autoImplicit false
set_option relaxedAutoImplicit false

namespace TrendingPipeline.Base.Tallies

open TrendingPipeline.Base.Runs

universe u v w

variable {σ : Type u} {α : Type v} {step : σ → α → Option σ} {ok : σ → α → Prop}

/-- The costs of the actions of a run, each in the state it is taken from. -/
def total (step : σ → α → Option σ) (cost : σ → α → Nat) : σ → List α → Nat
  | _, [] => 0
  | s, a :: as => cost s a + (step s a).elim 0 fun t => total step cost t as

variable {cost credit : σ → α → Nat}

private theorem total_cons {s m : σ} {a : α} {as : List α} (hstep : step s a = some m) :
    total step cost s (a :: as) = cost s a + total step cost m as := by
  rw [total, hstep, Option.elim_some]

theorem total_mul (k : Nat) (s : σ) (as : List α) :
    total step (fun s a => k * cost s a) s as = k * total step cost s as := by
  induction as generalizing s with
  | nil => rfl
  | cons a as ih =>
      rw [total, total, Nat.mul_add]
      cases step s a with
      | none => rfl
      | some t => rw [Option.elim_some, Option.elim_some, ih]

/-- When every step pays from the potential and from what it is credited with, so does
every run. -/
theorem total_le_of_potential {potential : σ → Nat}
    (hpay : ∀ s a t, ok s a → step s a = some t →
      cost s a + potential t ≤ potential s + credit s a)
    {s t : σ} {as : List α} (hok : Meets step ok s as) (hrun : run step s as = some t) :
    total step cost s as + potential t ≤ potential s + total step credit s as := by
  induction as generalizing s with
  | nil =>
      obtain rfl := Option.some.inj hrun
      show 0 + potential s ≤ potential s + 0
      omega
  | cons a as ih =>
      obtain ⟨m, hstep, hrest⟩ := run_cons_eq_some.mp hrun
      obtain ⟨ha, has⟩ := (meets_cons hstep).mp hok
      have hnow := hpay s a m ha hstep
      have hlater := ih has hrest
      rw [total_cons hstep, total_cons hstep]
      omega

variable {β : Type w}

/-- What the actions of a run give, in order. -/
def trace (step : σ → α → Option σ) (gives : σ → α → Option β) : σ → List α → List β
  | _, [] => []
  | s, a :: as => (gives s a).toList ++ (step s a).elim [] fun t => trace step gives t as

theorem trace_cons {gives : σ → α → Option β} {s m : σ} {a : α} {as : List α}
    (hstep : step s a = some m) :
    trace step gives s (a :: as) = (gives s a).toList ++ trace step gives m as := by
  rw [trace, hstep, Option.elim_some]

/-- If every step puts at the end and takes from the front, a run takes things in the
order in which they were put. -/
theorem first_in_first_out {queue : σ → List β} {puts takes : σ → α → Option β}
    (hfifo : ∀ s a t, ok s a → step s a = some t →
      queue s ++ (puts s a).toList = (takes s a).toList ++ queue t)
    {s t : σ} {as : List α} (hok : Meets step ok s as) (hrun : run step s as = some t) :
    queue s ++ trace step puts s as = trace step takes s as ++ queue t := by
  induction as generalizing s with
  | nil =>
      obtain rfl := Option.some.inj hrun
      rw [trace, trace, List.append_nil, List.nil_append]
  | cons a as ih =>
      obtain ⟨m, hstep, hrest⟩ := run_cons_eq_some.mp hrun
      obtain ⟨ha, has⟩ := (meets_cons hstep).mp hok
      rw [trace_cons hstep, trace_cons hstep, ← List.append_assoc, hfifo s a m ha hstep,
        List.append_assoc, ih has hrest, List.append_assoc]

end TrendingPipeline.Base.Tallies
