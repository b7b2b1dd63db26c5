/- Unit: TrendingPipeline/Base/Overlap
   source: none (general)
   digest: A view whose requests overlap: whose response it shows when all have come. -/

import Mathlib.Tactic.Common

/-!
The view stores whatever comes back, whatever is selected by then. Whether it shows the
selection once nothing is on its way is therefore settled by the last response alone: by
what it was requested for or, if it brings no data, by what was held before.
-/

set_option autoImplicit false
set_option relaxedAutoImplicit false

namespace TrendingPipeline.Base.Overlap

universe u

/-- What the view is asked to show, what the requests on their way were made for, and
what the data it holds were requested for. -/
structure View (φ : Type u) where
  selected : φ
  inFlight : List φ
  held : Option φ

inductive Outcome
  | stored
  | kept
  | cleared
  deriving DecidableEq

inductive Act (φ : Type u)
  /-- nothing that matters here -/
  | wait
  /-- another selection, and a request for it -/
  | select (f : φ)
  /-- another request for the same selection -/
  | reload
  /-- the response to the `i`-th request -/
  | answer (i : ℕ) (outcome : Outcome)

variable {φ : Type u}

def Outcome.apply (held : Option φ) (f : φ) : Outcome → Option φ
  | .stored => some f
  | .kept => held
  | .cleared => none

def step (v : View φ) : Act φ → Option (View φ)
  | .wait => some v
  | .select f => some { v with selected := f, inFlight := v.inFlight ++ [f] }
  | .reload => some { v with inFlight := v.inFlight ++ [v.selected] }
  | .answer i outcome =>
      (v.inFlight[i]?).map fun f =>
        { v with inFlight := v.inFlight.eraseIdx i, held := outcome.apply v.held f }

def View.Current (v : View φ) : Prop := v.held = some v.selected

/-- After the action the data are those of the selection: what is stored was requested
for it, or what is kept was. -/
def Fits (v : View φ) : Act φ → Prop
  | .wait | .reload | .answer _ .kept => v.held = some v.selected
  | .select f => v.held = some f
  | .answer i .stored => v.inFlight[i]? = some v.selected
  | .answer _ .cleared => False

def Empties (v : View φ) : Act φ → Prop
  | .wait => v.inFlight = []
  | .select _ | .reload => False
  | .answer _ _ => v.inFlight.length = 1

instance [DecidableEq φ] (v : View φ) : ∀ a, Decidable (Fits v a)
  | .wait | .reload | .answer _ .kept | .select _ | .answer _ .stored =>
      inferInstanceAs (Decidable (_ = _))
  | .answer _ .cleared => inferInstanceAs (Decidable False)

instance [DecidableEq φ] (v : View φ) : ∀ a, Decidable (Empties v a)
  | .wait | .answer _ _ => inferInstanceAs (Decidable (_ = _))
  | .select _ | .reload => inferInstanceAs (Decidable False)

variable {v w : View φ} {a : Act φ}

theorem current_step_iff (h : step v a = some w) : w.Current ↔ Fits v a := by
  cases a with
  | wait =>
      obtain rfl := Option.some.inj h
      exact Iff.rfl
  | select f =>
      obtain rfl := Option.some.inj h
      exact Iff.rfl
  | reload =>
      obtain rfl := Option.some.inj h
      exact Iff.rfl
  | answer i outcome =>
      obtain ⟨f, hf, rfl⟩ := Option.map_eq_some_iff.mp h
      cases outcome with
      | stored => exact (iff_of_eq (congrArg (· = some v.selected) hf)).symm
      | kept => exact Iff.rfl
      | cleared => exact ⟨nofun, nofun⟩

theorem inFlight_eq_nil_iff (h : step v a = some w) : w.inFlight = [] ↔ Empties v a := by
  cases a with
  | wait =>
      obtain rfl := Option.some.inj h
      exact Iff.rfl
  | select f =>
      obtain rfl := Option.some.inj h
      exact ⟨fun hnil => absurd hnil (List.append_ne_nil_of_right_ne_nil _ nofun), nofun⟩
  | reload =>
      obtain rfl := Option.some.inj h
      exact ⟨fun hnil => absurd hnil (List.append_ne_nil_of_right_ne_nil _ nofun), nofun⟩
  | answer i outcome =>
      obtain ⟨f, hf, rfl⟩ := Option.map_eq_some_iff.mp h
      have hi : i < v.inFlight.length := (List.getElem?_eq_some_iff.mp hf).1
      change v.inFlight.eraseIdx i = [] ↔ v.inFlight.length = 1
      rw [← List.length_eq_zero_iff, List.length_eraseIdx_of_lt hi]
      omega

/-- Once nothing is on its way, the data are those of the selection: a step keeps this
exactly when, if it is the last response, it fits. -/
theorem settled_step_iff (h : step v a = some w) :
    (w.inFlight = [] → w.Current) ↔ (Empties v a → Fits v a) := by
  rw [inFlight_eq_nil_iff h, current_step_iff h]

/-- When what is held came with the newest answer, it is that of the selection exactly if
that answer was to a request for it. -/
theorem held_iff_requestedFor {δ γ : Type u} {last : Option (φ × δ)} {held : γ} {stored : δ → γ}
    {f : φ} (hheld : ∀ g data, last = some (g, data) → held = stored data) :
    (∃ data, last = some (f, data) ∧ held = stored data) ↔ last.map Prod.fst = some f := by
  constructor
  · rintro ⟨data, hlast, -⟩
    rw [hlast, Option.map_some]
  · intro hfor
    obtain ⟨⟨g, data⟩, hlast, rfl⟩ := Option.map_eq_some_iff.mp hfor
    exact ⟨data, hlast, hheld g data hlast⟩

end TrendingPipeline.Base.Overlap
