/- Unit: TrendingPipeline/System/CurrentState
   source: backend/etl/server.go
   digest: The state a duplicate submission is told against the state of the row it meets. -/

import TrendingPipeline.Etl.WatchJob
import TrendingPipeline.System.ExactlyOnce
import TrendingPipeline.System.Rows

set_option autoImplicit false
set_option relaxedAutoImplicit false

namespace TrendingPipeline.System.CurrentState

open TrendingPipeline.Base.Calendar (Time)
open TrendingPipeline.Base.Runs
open TrendingPipeline.Proto.Messages (JobRequest JobState)
open TrendingPipeline.Store.Tables (JobRow)
open TrendingPipeline.Store.Statements (getJobByIdempotencyKey)
open TrendingPipeline.Etl.Submit (Call)
open TrendingPipeline.Etl.WatchJob (stateOf)
open TrendingPipeline.System.Step
open TrendingPipeline.System.ExactlyOnce (sampleRequest submission)
open TrendingPipeline.System.Rows

/-- The states a call has put in its responses: SubmitJob's, and those of the entries
SubmitBatch has so far. -/
def toldStates (c : Call) : List JobState :=
  match c.handler, c.point with
  | .submitJob, .returned (.job response) => [response.state]
  | .submitJob, _ => []
  | .submitBatch b, _ => b.results.map (·.state)

def foundRow (s : State) : Act → Option JobRow
  | .call i (.lookup .none _) =>
      match s.calls[i]? with
      | some c =>
          match c.point with
          | .lookup req => getJobByIdempotencyKey s.db req.idempotencyKey
          | _ => none
      | none => none
  | _ => none

/-- What the call of an action has told before it and after it. -/
def toldBefore (s : State) : Act → List JobState
  | .call i _ => (s.calls[i]?.map toldStates).getD []
  | _ => []

def toldAfter (s : State) : Act → List JobState
  | .call i ev => (((step s (.call i ev)).bind (·.calls[i]?)).map toldStates).getD []
  | _ => []

/-- If the key has a row, the call goes on to tell the state of that row. -/
def TellsCurrent (s : State) (a : Act) : Prop :=
  (foundRow s a).all fun row => toldAfter s a = toldBefore s a ++ [stateOf row]

/-- If the key has a row, no UPDATE has changed it since its INSERT. -/
def FindsUntouched (s : State) (a : Act) : Prop :=
  (foundRow s a).all fun row => row.toJobProgress = {}

instance (s : State) (a : Act) : Decidable (TellsCurrent s a) :=
  inferInstanceAs (Decidable (_ = true))

instance (s : State) (a : Act) : Decidable (FindsUntouched s a) :=
  inferInstanceAs (Decidable (_ = true))

private theorem stateOf_eq_queued_iff {r : JobRow} : stateOf r = .queued ↔ r.state = .queued := by
  unfold stateOf
  cases r.state <;> decide

private theorem untouched_iff {s : State} (h : Reachable Migrated step Anything s) {r : JobRow}
    (hr : r ∈ s.db.jobs.rows) : r.toJobProgress = {} ↔ stateOf r = .queued := by
  rw [stateOf_eq_queued_iff]
  constructor
  · intro hwait
    rw [hwait]
  · intro hqueued
    have hbyId : s.db.jobs.byId r.jobId = some r :=
      Store.Tables.JobsTable.byId_eq_some_iff.mpr ⟨hr, rfl⟩
    exact waiting_of_queued (regular_of_reachable h r.jobId r hbyId) hqueued

private theorem toldStates_existing {c : Call} {req : JobRequest} {jobId : String} {now : Time}
    (hpoint : c.point = .lookup req) :
    toldStates (c.existing req jobId now) = toldStates c ++ [.queued] := by
  obtain ⟨handler, point, answers⟩ := c
  obtain rfl : point = .lookup req := hpoint
  cases handler with
  | submitJob => rfl
  | submitBatch b =>
      change (b.results ++ _).map _ = _
      rw [List.map_append]
      rfl

variable {s t : State} {a : Act}

private theorem lookup_of_found {row : JobRow} (hfound : foundRow s a = some row) :
    ∃ i now c req, a = .call i (.lookup .none now) ∧ s.calls[i]? = some c ∧
      c.point = .lookup req ∧ row ∈ s.db.jobs.rows ∧
      step s a = some { s with calls := s.calls.set i (c.existing req row.jobId now) } := by
  unfold foundRow at hfound
  split at hfound
  · next i now =>
      split at hfound
      · next c hc =>
          split at hfound
          · next req hpoint =>
              refine ⟨i, now, c, req, rfl, hc, hpoint, ?_, ?_⟩
              · exact (Store.Tables.JobsTable.byKey_eq_some_iff.mp hfound).1
              · simp [step, hc, Etl.Submit.step, hpoint, Etl.Submit.onLookup, hfound,
                  State.afterCall]
          · cases hfound
      · cases hfound
  · cases hfound

private theorem toldAfter_of_found {row : JobRow} (hfound : foundRow s a = some row) :
    row ∈ s.db.jobs.rows ∧ toldAfter s a = toldBefore s a ++ [.queued] := by
  obtain ⟨i, now, c, req, rfl, hc, hpoint, hmem, hstep⟩ := lookup_of_found hfound
  have hlt : i < s.calls.length := (List.getElem?_eq_some_iff.mp hc).1
  refine ⟨hmem, ?_⟩
  simp only [toldAfter, toldBefore, hstep, hc, Option.bind_some, Option.map_some, Option.getD_some,
    List.getElem?_set_self hlt]
  exact toldStates_existing hpoint

private theorem tellsCurrent_iff (h : Reachable Migrated step Anything s) :
    TellsCurrent s a ↔ FindsUntouched s a := by
  unfold TellsCurrent FindsUntouched
  cases hfound : foundRow s a with
  | none => exact iff_of_true rfl rfl
  | some row =>
      obtain ⟨hmem, htold⟩ := toldAfter_of_found hfound
      rw [Option.all_some, Option.all_some, decide_eq_true_iff, decide_eq_true_iff, htold,
        untouched_iff h hmem]
      constructor
      · intro hsame
        exact (List.singleton_inj.mp (List.append_cancel_left hsame)).symm
      · intro hqueued
        rw [hqueued]

/-- Over every run, whatever fails: a call that meets a row with its key tells the
current state of that row exactly when the row is still as its INSERT left it. -/
theorem duplicates_told_iff (acts : List Act) :
    Meets step (fun s a => TellsCurrent s a ↔ FindsUntouched s a) (State.cold .empty) acts ∧
      (Meets step TellsCurrent (State.cold .empty) acts ↔
        Meets step FindsUntouched (State.cold .empty) acts) := by
  have hinit : Reachable Migrated step Anything (State.cold .empty) := ⟨_, rfl, .refl⟩
  have hsteps : Meets step (fun s a => TellsCurrent s a ↔ FindsUntouched s a)
      (State.cold .empty) acts := by
    refine meets_of_invariant ?_ ?_ hinit acts
    · exact fun s a t hreach hstep => hreach.next trivial hstep
    · exact fun s a hreach => tellsCurrent_iff hreach
  exact ⟨hsteps, meets_congr hsteps⟩

def started : List Act := submission ++ [.call 0 (.send Time.zero), .receive 0, .work 0 {}]

def again : List Act := [.submitJob sampleRequest, .call 1 (.lookup .none Time.zero)]

def afterRun (acts : List Act) : State :=
  (run step (State.cold .empty) acts).getD (State.cold .empty)

/-- The job runs, and the caller is told that it is queued. -/
theorem again_toldQueued :
    run step (State.cold .empty) (started ++ again) = some (afterRun (started ++ again)) ∧
      ((afterRun (started ++ again)).db.jobs.byId "job-1").map stateOf = some .running ∧
      (afterRun (started ++ again)).calls[1]?.map toldStates = some [.queued] ∧
      ¬ Meets step TellsCurrent (State.cold .empty) (started ++ again) := by
  exact ⟨rfl, by decide, by decide, by decide⟩

end TrendingPipeline.System.CurrentState
