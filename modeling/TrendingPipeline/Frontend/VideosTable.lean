/- Unit: TrendingPipeline/Frontend/VideosTable
   source: frontend/components/videos-table.tsx
   digest: The video browser's filter and its overlapping fetches, and whose videos it shows. -/

import TrendingPipeline.Base.Overlap
import TrendingPipeline.Base.Runs

set_option autoImplicit false
set_option relaxedAutoImplicit false

namespace TrendingPipeline.Frontend.VideosTable

open TrendingPipeline.Base.Runs
open TrendingPipeline.Base.Overlap (Empties Fits View held_iff_requestedFor settled_step_iff)

/-- What a fetch was started for: the values `fetchVideos` closed over. -/
structure Filter where
  region : String
  categoryId : String
  deriving DecidableEq

/-- `getVideos` resolves, possibly to `undefined`, or rejects; a rejection that is an
Error has a message. -/
inductive Response (V : Type)
  | resolved (data : Option (List V))
  | rejected (message : Option String)

/-- The component's state with the fetches on their way, oldest first, and one history
field: the responses that have come, newest first, each with what it was requested for. -/
structure State (V : Type) where
  region : String := "US"
  categoryId : String := "all"
  videos : List V := []
  loading : Bool := true
  error : Option String := none
  inFlight : List Filter
  answered : List (Filter × Response V) := []

variable {V : Type}

def State.filter (s : State V) : Filter := ⟨s.region, s.categoryId⟩

inductive Act (V : Type)
  | selectRegion (v : String)
  | selectCategory (v : String)
  /-- the button under an error -/
  | retry
  /-- the `i`-th fetch on its way comes back -/
  | respond (i : ℕ) (response : Response V)

/-- `fetchVideos` up to its await. -/
def State.fetchVideos (s : State V) : State V :=
  { s with loading := true, error := none, inFlight := s.inFlight ++ [s.filter] }

def mounted : State V := State.fetchVideos { inFlight := [] }

/-- `fetchVideos` after its await. -/
def State.resume (s : State V) : Response V → State V
  | .resolved data => { s with videos := data.getD [], loading := false }
  | .rejected message =>
      { s with error := some (message.getD "Failed to fetch videos"), loading := false }

/-- One step; the effect runs `fetchVideos` when the region or the category changed. -/
def step (s : State V) : Act V → Option (State V)
  | .selectRegion v =>
      if v = "" ∨ v = s.region then some s else some ({ s with region := v }.fetchVideos)
  | .selectCategory v =>
      if v = "" ∨ v = s.categoryId then some s else some ({ s with categoryId := v }.fetchVideos)
  | .retry => if !s.loading && s.error.isSome then some s.fetchVideos else none
  | .respond i response =>
      (s.inFlight[i]?).map fun f =>
        ({ s with
            inFlight := s.inFlight.eraseIdx i
            answered := (f, response) :: s.answered }).resume response

/-- The newest response that resolved: what it was requested for, and its data. -/
def lastResolved : List (Filter × Response V) → Option (Filter × Option (List V))
  | [] => none
  | (f, .resolved data) :: _ => some (f, data)
  | (_, .rejected _) :: earlier => lastResolved earlier

/-- When no fetch is on its way, the videos are the data of the newest response that
resolved, and that one was requested for the filter. -/
def ShowsSelected (s : State V) : Prop :=
  s.inFlight = [] →
    ∃ data, lastResolved s.answered = some (s.filter, data) ∧ s.videos = data.getD []

/-- What the newest response that resolved was requested for. -/
def State.resolvedFor (s : State V) : Option Filter := (lastResolved s.answered).map Prod.fst

/-- The last response to arrive was requested for the filter; if it is an error, the newest
of those before it that resolved was. -/
def LastFits (s : State V) : Act V → Prop
  | .respond i (.resolved _) => s.inFlight.length = 1 → s.inFlight[i]? = some s.filter
  | .respond _ (.rejected _) => s.inFlight.length = 1 → s.resolvedFor = some s.filter
  | .selectRegion _ | .selectCategory _ | .retry => True

instance (s : State V) : ∀ a, Decidable (LastFits s a)
  | .respond _ (.resolved _) | .respond _ (.rejected _) => inferInstanceAs (Decidable (_ → _))
  | .selectRegion _ | .selectCategory _ | .retry => inferInstanceAs (Decidable True)

def view (s : State V) : View Filter := ⟨s.filter, s.inFlight, s.resolvedFor⟩

def viewAct (s : State V) : Act V → Base.Overlap.Act Filter
  | .selectRegion v =>
      if v = "" ∨ v = s.region then .wait else .select ⟨v, s.categoryId⟩
  | .selectCategory v =>
      if v = "" ∨ v = s.categoryId then .wait else .select ⟨s.region, v⟩
  | .retry => .reload
  | .respond i (.resolved _) => .answer i .stored
  | .respond i (.rejected _) => .answer i .kept

variable {s t : State V} {a : Act V}

/-- A choice of either Select: nothing happens, or a fetch for the new filter starts. -/
theorem select_cases (ha : (∃ v, a = .selectRegion v) ∨ ∃ v, a = .selectCategory v)
    (h : step s a = some t) :
    (viewAct s a = .wait ∧ t = s) ∨
      ∃ f : Filter, viewAct s a = .select f ∧
        t = ({ s with region := f.region, categoryId := f.categoryId }).fetchVideos := by
  obtain ⟨v, rfl⟩ | ⟨v, rfl⟩ := ha
  · simp only [step] at h
    split at h
    · next hstays => exact .inl ⟨if_pos hstays, (Option.some.inj h).symm⟩
    · next hmoves => exact .inr ⟨⟨v, s.categoryId⟩, if_neg hmoves, (Option.some.inj h).symm⟩
  · simp only [step] at h
    split at h
    · next hstays => exact .inl ⟨if_pos hstays, (Option.some.inj h).symm⟩
    · next hmoves => exact .inr ⟨⟨s.region, v⟩, if_neg hmoves, (Option.some.inj h).symm⟩

private theorem view_select (ha : (∃ v, a = .selectRegion v) ∨ ∃ v, a = .selectCategory v)
    (h : step s a = some t) :
    Base.Overlap.step (view s) (viewAct s a) = some (view t) := by
  obtain ⟨hwait, rfl⟩ | ⟨f, hselect, rfl⟩ := select_cases ha h
  · rw [hwait]
    rfl
  · rw [hselect]
    rfl

private theorem view_step (h : step s a = some t) :
    Base.Overlap.step (view s) (viewAct s a) = some (view t) := by
  cases a with
  | selectRegion v => exact view_select (.inl ⟨v, rfl⟩) h
  | selectCategory v => exact view_select (.inr ⟨v, rfl⟩) h
  | retry =>
      simp only [step] at h
      split at h
      · obtain rfl := Option.some.inj h
        rfl
      · cases h
  | respond i response =>
      obtain ⟨f, hf, rfl⟩ := Option.map_eq_some_iff.mp h
      have hview : (view s).inFlight[i]? = some f := hf
      cases response with
      | resolved data => simp only [viewAct, Base.Overlap.step, hview, Option.map_some]; rfl
      | rejected message => simp only [viewAct, Base.Overlap.step, hview, Option.map_some]; rfl

/-- The videos are the data of the newest response that resolved. -/
def HoldsLast (s : State V) : Prop :=
  s.videos = ((lastResolved s.answered).bind Prod.snd).getD []

theorem HoldsLast.step (hholds : HoldsLast s) (h : step s a = some t) : HoldsLast t := by
  cases a with
  | selectRegion v =>
      obtain ⟨-, rfl⟩ | ⟨f, -, rfl⟩ := select_cases (.inl ⟨v, rfl⟩) h
      · exact hholds
      · exact hholds
  | selectCategory v =>
      obtain ⟨-, rfl⟩ | ⟨f, -, rfl⟩ := select_cases (.inr ⟨v, rfl⟩) h
      · exact hholds
      · exact hholds
  | retry =>
      simp only [VideosTable.step] at h
      split at h
      · obtain rfl := Option.some.inj h
        exact hholds
      · cases h
  | respond i response =>
      obtain ⟨f, -, rfl⟩ := Option.map_eq_some_iff.mp h
      cases response with
      | resolved data => rfl
      | rejected message => exact hholds

/-- Whose data are held is a matter of what the newest response that resolved was for. -/
private theorem showsSelected_iff_resolvedFor (hholds : HoldsLast s) :
    ShowsSelected s ↔ (s.inFlight = [] → s.resolvedFor = some s.filter) := by
  refine imp_congr_right fun _ => held_iff_requestedFor ?_
  intro f data hlast
  rw [hholds, hlast, Option.bind_some]

theorem showsSelected_step_iff (hholds : HoldsLast s) (hshows : ShowsSelected s)
    (h : step s a = some t) : ShowsSelected t ↔ LastFits s a := by
  have hview : ShowsSelected t ↔ (Empties (view s) (viewAct s a) → Fits (view s) (viewAct s a)) :=
    (showsSelected_iff_resolvedFor (hholds.step h)).trans (settled_step_iff (view_step h))
  have hfor := (showsSelected_iff_resolvedFor hholds).mp hshows
  have hselect : (∃ v, a = .selectRegion v) ∨ (∃ v, a = .selectCategory v) →
      (ShowsSelected t ↔ True) := by
    intro ha
    rw [iff_true, hview]
    obtain ⟨hwait, -⟩ | ⟨f, hselect, -⟩ := select_cases ha h
    · rw [hwait]
      exact hfor
    · rw [hselect]
      exact nofun
  cases a with
  | selectRegion v => exact hselect (.inl ⟨v, rfl⟩)
  | selectCategory v => exact hselect (.inr ⟨v, rfl⟩)
  | retry =>
      rw [hview]
      exact ⟨fun _ => trivial, fun _ => nofun⟩
  | respond i response =>
      rw [hview]
      cases response with
      | resolved data => exact Iff.rfl
      | rejected message => exact Iff.rfl

/-- In a run of the component the videos are those of the filter whenever no fetch is
on its way, exactly when each last response fits. -/
theorem showsSelected_iff {acts : List (Act V)} (hrun : run step mounted acts = some t) :
    Always step ShowsSelected mounted acts ↔ Meets step LastFits mounted acts := by
  have hstart : ShowsSelected (mounted : State V) := fun h => absurd h (List.cons_ne_nil _ _)
  exact always_iff_meets (I := HoldsLast) (fun _ _ _ hholds _ hstep => hholds.step hstep)
    (fun _ _ _ hholds hshows _ hstep => showsSelected_step_iff hholds hshows hstep) rfl hstart
    (meets_true _ _) hrun

end TrendingPipeline.Frontend.VideosTable
