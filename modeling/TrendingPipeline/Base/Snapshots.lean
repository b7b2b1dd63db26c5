/- Unit: TrendingPipeline/Base/Snapshots
   source: none (general)
   digest: Reads of values that only rise, numbered as they are made and shown in any order. -/

import Mathlib.Order.Basic

set_option autoImplicit false
set_option relaxedAutoImplicit false

namespace TrendingPipeline.Base.Snapshots

universe u v w

variable {ρ : Type u} {κ : Type v} {α : Type w} [PartialOrder α]
variable (key : ρ → κ) (value : ρ → α) (instant : ρ → ℕ)

/-- What is known of the reads made so far, `count` of them, by the values now. -/
structure Dated (current : κ → α) (count : ℕ) (known : List ρ) : Prop where
  past : ∀ a ∈ known, instant a < count
  below : ∀ a ∈ known, value a ≤ current (key a)
  rising : ∀ a ∈ known, ∀ b ∈ known, key a = key b → instant a ≤ instant b → value a ≤ value b

def Forward (shown fresh : List ρ) : Prop :=
  ∀ a ∈ shown, ∀ b ∈ fresh, key a = key b → value a ≤ value b

/-- A read that was shown before is at no other value than an earlier read of its key. -/
def InOrder (shown fresh : List ρ) : Prop :=
  ∀ a ∈ shown, ∀ b ∈ fresh, key a = key b → instant b < instant a → value a = value b

variable {key value instant} {current current' : κ → α} {count : ℕ} {known known' : List ρ}

theorem dated_nil (current : κ → α) (count : ℕ) : Dated key value instant current count [] where
  past := nofun
  below := nofun
  rising := nofun

theorem Dated.moved (h : Dated key value instant current count known)
    (hrise : ∀ k, current k ≤ current' k) : Dated key value instant current' count known where
  past := h.past
  below a ha := (h.below a ha).trans (hrise (key a))
  rising := h.rising

theorem Dated.subset (h : Dated key value instant current count known) (hsub : known' ⊆ known) :
    Dated key value instant current count known' where
  past a ha := h.past a (hsub ha)
  below a ha := h.below a (hsub ha)
  rising a ha b hb := h.rising a (hsub ha) b (hsub hb)

theorem Dated.read {b : ρ} (h : Dated key value instant current count known)
    (hvalue : value b = current (key b)) (hinstant : instant b = count) :
    Dated key value instant current (count + 1) (b :: known) where
  past a ha := by
    rcases List.mem_cons.mp ha with rfl | hold
    · rw [hinstant]
      exact Nat.lt_succ_self count
    · exact Nat.lt_succ_of_lt (h.past a hold)
  below a ha := by
    rcases List.mem_cons.mp ha with rfl | hold
    · exact hvalue.le
    · exact h.below a hold
  rising a ha c hc hkey hle := by
    rcases List.mem_cons.mp ha with rfl | hold
    · rcases List.mem_cons.mp hc with rfl | hold'
      · exact le_rfl
      · -- an older read does not come after the newest one
        rw [hinstant] at hle
        exact absurd (h.past c hold') (Nat.not_lt.mpr hle)
    · rcases List.mem_cons.mp hc with rfl | hold'
      · rw [hvalue, ← hkey]
        exact h.below a hold
      · exact h.rising a hold c hold' hkey hle

/-- Showing reads passes below a value shown before exactly where it shows a read out
of order across a change of the value. -/
theorem Dated.forward_iff (h : Dated key value instant current count known)
    {shown fresh : List ρ} (hshown : shown ⊆ known) (hfresh : fresh ⊆ known) :
    Forward key value shown fresh ↔ InOrder key value instant shown fresh := by
  constructor
  · intro hforward a ha b hb hkey hlt
    have hback : value b ≤ value a :=
      h.rising b (hfresh hb) a (hshown ha) hkey.symm (Nat.le_of_lt hlt)
    exact le_antisymm (hforward a ha b hb hkey) hback
  · intro horder a ha b hb hkey
    rcases Nat.lt_or_ge (instant b) (instant a) with hlt | hge
    · exact (horder a ha b hb hkey hlt).le
    · exact h.rising a (hshown ha) b (hfresh hb) hkey hge

end TrendingPipeline.Base.Snapshots
