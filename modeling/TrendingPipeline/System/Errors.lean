/- Unit: TrendingPipeline/System/Errors
   source: backend/db/db.go, backend/worker/worker.go
   digest: The error message of a row against its state, and the success that leaves it behind. -/

import TrendingPipeline.Frontend.JobDetail
import TrendingPipeline.System.Lifecycle

set_option autoImplicit false
set_option relaxedAutoImplicit false

namespace TrendingPipeline.System.Errors

open TrendingPipeline.Base.Calendar (Time)
open TrendingPipeline.Base.Runs
open TrendingPipeline.Store.Tables (Db JobProgress JobRow)
open TrendingPipeline.Store.Statements
open TrendingPipeline.Worker.ProcessJob (Job)
open TrendingPipeline.Worker.Machine (Input Point)
open TrendingPipeline.Worker.Effects
open TrendingPipeline.Etl.WatchJob (scanJobStatus)
open TrendingPipeline.Frontend.JobDetail (errorPanel)
open TrendingPipeline.System.Step
open TrendingPipeline.System.ExactlyOnce (submission)
open TrendingPipeline.System.Lifecycle
open TrendingPipeline.System.Rows

/-- There is an error message exactly in the states an error leads to. -/
def ErrorFits (r : JobRow) : Prop :=
  r.errorMessage.isSome = true ↔ r.state = .retrying ∨ r.state = .dead

variable {r : JobRow} {k : Nat}

private theorem errorFits_of_open (h : Open r.toJobProgress) : ErrorFits r := by
  rcases h with hwait | ⟨k, hk⟩
  · have hwait' : r.toJobProgress = {} := hwait
    simp [ErrorFits, hwait']
  · have hstate := hk.state
    by_cases hzero : k = 0
    · rw [if_pos hzero] at hstate
      simp [ErrorFits, hk.errorMessage, hstate, hzero]
    · rw [if_neg hzero] at hstate
      simp [ErrorFits, hk.errorMessage, hstate, Nat.pos_of_ne_zero hzero]

private theorem errorFits_of_givenUp (h : GivenUp k r.toJobProgress) : ErrorFits r := by
  simp [ErrorFits, h.errorMessage, h.state]

private theorem errorFits_completed_iff (h : Attempted k r.toJobProgress) (t : Time) (f n : Int32) :
    ErrorFits (r.apply (completed t f n)) ↔ k = 0 := by
  have hmessage : (r.apply (completed t f n)).errorMessage = r.errorMessage := rfl
  have hstate : (r.apply (completed t f n)).state = .done := rfl
  rw [ErrorFits, hmessage, hstate, h.errorMessage]
  simp

/-- UpdateJobCompleted takes effect in an attempt after the first. -/
def completesLateAt (fault : Fault) : Point → Bool
  | .ingest attempt [] _ _ => 1 < attempt && fault ≠ .lost
  | .start | .fetch _ | .retry _ | .sleep _ | .ingest _ (_ :: _) _ _ | .dead _ => false

variable {s t : State} {a : Act}

private theorem errorFits_work_iff {inp : Input} {job : Job} {p : Point}
    {next : Worker.Machine.Next}
    {db db' : Db} {r' : JobRow} (hsteps : Steps job inp db p next db')
    (hr : db.jobs.byId job.id = some r) (hr' : db'.jobs.byId job.id = some r')
    (hat : RowAt (.working p) r.toJobProgress) (hafter : RowAfter inp r r' next) :
    ErrorFits r' ↔ completesLateAt inp.fault p = false := by
  cases next with
  | goto q =>
      refine iff_of_true (errorFits_of_open (RowAt.isOpen hafter)) ?_
      cases hsteps <;> rfl
  | panicked =>
      obtain rfl : r' = r := hafter
      obtain ⟨attempt, rfl, -⟩ := hsteps.of_panicked
      exact iff_of_true (errorFits_of_open hat.isOpen) rfl
  | returned =>
      cases hsteps with
      | completed attempt fetched count hfault =>
          obtain ⟨⟨k, rfl, -, hk⟩, -⟩ := hat
          obtain rfl := Option.some.inj (hr'.symm.trans (byId_updateJob_self _ hr))
          rw [errorFits_completed_iff hk]
          simp [completesLateAt, hfault]
      | completionLost attempt fetched count hlost =>
          obtain rfl := Option.some.inj (hr'.symm.trans hr)
          refine iff_of_true (errorFits_of_open hat.isOpen) ?_
          simp [completesLateAt, hlost]
      | died reason hfault =>
          obtain rfl := Option.some.inj (hr'.symm.trans (byId_updateJob_self _ hr))
          obtain ⟨k, hdead⟩ := hat.isOpen.dead reason.message
          exact iff_of_true (errorFits_of_givenUp hdead) rfl
      | deathLost reason hlost =>
          obtain rfl := Option.some.inj (hr'.symm.trans hr)
          exact iff_of_true (errorFits_of_open hat.isOpen) rfl

private theorem errorsFit_step_iff (h : Reachable Migrated step Anything s)
    (hfit : AllRows ErrorFits s)
    (hstep : step s a = some t) :
    AllRows ErrorFits t ↔ atPoint completesLateAt s a = false := by
  refine allRows_step_iff (fun _ => True) ?_ ?_ (cold_of_migrated h) hfit trivial hstep
  · exact fun _ _ _ => errorFits_of_open (.inl rfl)
  · intro job inp db db' p next r r' _ hsteps hr hr' _ hat hafter
    exact errorFits_work_iff hsteps hr hr' hat hafter

/-- Whatever statements fail and whatever the fetches give: the messages fit the states
throughout a run exactly when no job is completed in an attempt after its first. -/
theorem errorsFit_iff {acts : List Act} (hrun : run step (State.cold .empty) acts = some t) :
    Always step (AllRows ErrorFits) (State.cold .empty) acts ↔
      Meets step (fun s a => atPoint completesLateAt s a = false) (State.cold .empty) acts := by
  have hany : Meets step Anything (State.cold .empty) acts := meets_true _ acts
  refine always_iff_meets (I := Reachable Migrated step Anything) ?_ ?_ ⟨_, rfl, .refl⟩ ?_ hany hrun
  · exact fun s a t hreach hok hstep => hreach.next hok hstep
  · exact fun s a t hreach hfit _ hstep => errorsFit_step_iff hreach hfit hstep
  · exact fun id r hr => by cases hr

def earlySuccess : List Act :=
  submission ++
    [.call 0 (.send Time.zero), .receive 0, .work 0 {}, .work 0 emptyListing, .work 0 {}]

private theorem run_earlySuccess :
    run step (State.cold .empty) earlySuccess = some (afterRun earlySuccess) := by
  rfl

theorem errorsFit_iff_early :
    Always step (AllRows ErrorFits) (State.cold .empty) earlySuccess := by
  rw [errorsFit_iff run_earlySuccess]
  decide

/-- The job is done, its error message is still there, and JobDetail shows it. -/
theorem lateSuccess_keepsError :
    run step (State.cold .empty) lateSuccess = some (afterRun lateSuccess) ∧
      Meets step Healthy (State.cold .empty) lateSuccess ∧
      ((afterRun lateSuccess).db.jobs.byId "job-1").map
          (fun r => (r.state, errorPanel (scanJobStatus r))) =
        some (.done, some "Error fetching data from YouTube API.") ∧
      ¬ AllRows ErrorFits (afterRun lateSuccess) := by
  have hrow : ((afterRun lateSuccess).db.jobs.byId "job-1").map
      (fun r => (r.state, r.errorMessage, errorPanel (scanJobStatus r))) =
        some (.done, some "Error fetching data from YouTube API.",
          some "Error fetching data from YouTube API.") := by decide
  obtain ⟨r, hr, hcolumns⟩ := Option.map_eq_some_iff.mp hrow
  obtain ⟨hstate, hmessage, hpanel⟩ : r.state = .done ∧
      r.errorMessage = some "Error fetching data from YouTube API." ∧
      errorPanel (scanJobStatus r) = some "Error fetching data from YouTube API." := by
    simpa using hcolumns
  refine ⟨run_lateSuccess, by decide, ?_, ?_⟩
  · rw [hr, Option.map_some, hstate, hpanel]
  · intro hall
    have hfits := hall "job-1" r hr
    rw [ErrorFits, hstate, hmessage] at hfits
    simp at hfits

end TrendingPipeline.System.Errors
