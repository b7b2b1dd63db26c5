/- Unit: TrendingPipeline/Frontend/JobsList
   source: frontend/components/jobs-list.tsx
   digest: The list of recent jobs and fetchJobs, cut at its await. -/

import TrendingPipeline.Base.Calendar

set_option autoImplicit false
set_option relaxedAutoImplicit false

namespace TrendingPipeline.Frontend.JobsList

open TrendingPipeline.Base.Calendar (Time)

structure Page (J : Type) where
  jobs : List J := []
  loading : Bool := true
  refreshing : Bool := false
  lastUpdated : Option Time := none

/-- An element of what `Promise.allSettled` gives. -/
inductive Settled (J : Type)
  | fulfilled (value : J)
  | rejected

variable {J : Type}

def Settled.value : Settled J → Option J
  | .fulfilled value => some value
  | .rejected => none

def fetched (results : List (Settled J)) : List J := results.filterMap Settled.value

/-- `if (!silent) setRefreshing(true)`. -/
def Page.marked (p : Page J) (silent : Bool) : Page J :=
  if silent then p else { p with refreshing := true }

/-- The return of `fetchJobs` when no ids are stored. -/
def Page.cleared (p : Page J) : Page J :=
  { p with jobs := [], loading := false, refreshing := false }

/-- `fetchJobs` after its await. -/
def Page.shows (_ : Page J) (results : List (Settled J)) (now : Time) : Page J where
  jobs := fetched results
  loading := false
  refreshing := false
  lastUpdated := some now

@[simp] theorem Page.jobs_marked (p : Page J) (silent : Bool) :
    (p.marked silent).jobs = p.jobs := by
  unfold marked
  split <;> rfl

end TrendingPipeline.Frontend.JobsList
