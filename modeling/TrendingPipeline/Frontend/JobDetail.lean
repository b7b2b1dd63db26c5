/- Unit: TrendingPipeline/Frontend/JobDetail
   source: frontend/components/job-detail.tsx, frontend/lib/jobs.ts
   digest: The component's state, and the Attempt row and the error panel it shows of a job. -/

import TrendingPipeline.Base.Decimal
import TrendingPipeline.Etl.WatchJob

set_option autoImplicit false
set_option relaxedAutoImplicit false

namespace TrendingPipeline.Frontend.JobDetail

open TrendingPipeline.Base.Decimal (decimal)
open TrendingPipeline.Etl.WatchJob (isTerminal)
open TrendingPipeline.Proto.Messages (JobState JobStatus JobUpdate)

/-- A number in the JSON of a message; zero is left out. -/
def omitEmpty (n : Int32) : Option ℤ := if n = 0 then none else some n.toInt

/-- `(job.attempt ?? 0) + 1` and `job.max_attempts ?? 0`. -/
def attemptRow (job : JobStatus) : ℤ × ℤ :=
  ((omitEmpty job.attempt).getD 0 + 1, (omitEmpty job.maxAttempts).getD 0)

def attemptText (job : JobStatus) : String :=
  String.ofList (decimal (attemptRow job).1) ++ " / " ++
    String.ofList (decimal (attemptRow job).2)

/-- The message in the error panel, which an empty or absent one does not open. -/
def errorPanel (job : JobStatus) : Option String :=
  if job.errorMessage = "" then none else some job.errorMessage

private theorem getD_omitEmpty (n : Int32) : (omitEmpty n).getD 0 = n.toInt := by
  unfold omitEmpty
  split
  · next hzero =>
      rw [hzero]
      rfl
  · rfl

theorem attemptRow_eq (job : JobStatus) :
    attemptRow job = (job.attempt.toInt + 1, job.maxAttempts.toInt) := by
  rw [attemptRow, getD_omitEmpty, getD_omitEmpty]

def number : JobState → ℕ
  | .unspecified => 0
  | .done => 1
  | .failed => 2
  | .queued => 3
  | .running => 4
  | .retrying => 5
  | .dead => 6

def isTerminalState (state : ℕ) : Bool := state = 1 || state = 2 || state = 6

@[simp] theorem isTerminalState_number (a : JobState) :
    isTerminalState (number a) = isTerminal a := by
  cases a <;> rfl

structure Page where
  job : Option JobStatus := none
  loading : Bool := true
  error : Option String := none
  liveConnected : Bool := false
  updates : List JobUpdate := []

def maxUpdates : ℕ := 50

/-- What getJobStatus settles with; an Error it rejects with has a message. -/
abbrev Loaded := Except (Option String) JobStatus

def Page.loaded (p : Page) : Loaded → Page
  | .ok data => { p with job := some data, loading := false }
  | .error message =>
      { p with error := some (message.getD "Failed to load job"), loading := false }

/-- The load after a terminal update has settled. -/
def Page.refetched (p : Page) : Loaded → Page
  | .ok data => { p with job := some data }
  | .error _ => p

def Page.onUpdate (p : Page) (update : JobUpdate) : Page :=
  { p with
    job := p.job.map fun prev =>
      { prev with
        state := update.state
        videosFetched := update.videosFetched
        videosInserted := update.videosInserted }
    liveConnected := p.liveConnected && !isTerminalState (number update.state)
    updates := (update :: p.updates).take maxUpdates }

def Page.disconnected (p : Page) : Page := { p with liveConnected := false }

/-- The states of the updates, newest first. -/
def Page.states (p : Page) : List JobState := p.updates.map (·.state)

theorem Page.states_onUpdate (p : Page) (update : JobUpdate) :
    (p.onUpdate update).states = (update.state :: p.states).take maxUpdates := by
  rw [states, onUpdate, List.map_take, List.map_cons, states]

@[simp] theorem Page.states_loaded (p : Page) (answer : Loaded) :
    (p.loaded answer).states = p.states := by
  cases answer <;> rfl

@[simp] theorem Page.states_refetched (p : Page) (answer : Loaded) :
    (p.refetched answer).states = p.states := by
  cases answer <;> rfl

end TrendingPipeline.Frontend.JobDetail
