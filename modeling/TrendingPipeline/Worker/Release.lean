/- Unit: TrendingPipeline/Worker/Release
   source: backend/worker/worker.go
   digest: When the row of a job is terminal at the return of processJob. -/

import TrendingPipeline.Worker.Endings

set_option autoImplicit false
set_option relaxedAutoImplicit false

namespace TrendingPipeline.Worker.Release

open TrendingPipeline.Base.Calendar (Time)
open TrendingPipeline.Store.Tables (Db)
open TrendingPipeline.Store.Statements
open TrendingPipeline.Worker.ProcessJob
open TrendingPipeline.Worker.Endings

structure Lossy (env : Env) : Prop where
  started : env.started ≠ .applied
  retrying : ∀ attempt, env.retrying attempt ≠ .applied
  inserting : ∀ left, env.inserting left ≠ .applied
  completed : env.completed ≠ .applied
  dead : env.dead ≠ .applied

/-- If the run returns, the row it leaves is terminal. -/
def ReleasesFinished (env : Env) (db : Db) (job : Job) : Prop :=
  (processJob env db job).exit = .returned → Finished (processJob env db job).db job.id

/-- The statement that closes the run succeeds: UpdateJobCompleted where an attempt
succeeds and its videos are inserted, UpdateJobDead everywhere else. A run that panics
has no closing statement. -/
structure ClosingSucceeds (env : Env) (db : Db) (job : Job) : Prop where
  completed : Completes env db job → env.completed = .none
  dead : ¬ Completes env db job → ¬ (env.started = .none ∧ job.req.maxResults.toInt < 0) →
    env.dead = .none

/-- A worker releases a finished job exactly when the closing statement succeeds. -/
theorem releasesFinished_iff {env : Env} {db : Db} {job : Job} (hrow : Unfinished db job.id)
    (hlossy : Lossy env) : ReleasesFinished env db job ↔ ClosingSucceeds env db job := by
  have hfault : ∀ f : Fault, f ≠ .applied → (f ≠ .lost ↔ f = .none) := by
    intro f hf
    cases f <;> simp_all
  unfold ReleasesFinished
  cases processJob_endsBy env hrow with
  | panicked hexit hstarted hneg _ =>
      constructor
      · intro _
        refine ⟨?_, fun _ h => absurd ⟨hstarted, hneg⟩ h⟩
        rintro ⟨attempt, videos, htried, hfetch, -⟩
        rw [fetch_panicked_iff.mpr hneg] at hfetch
        cases hfetch
      · intro _ h
        rw [hexit] at h
        cases h
  | completed mid fetched inserted hexit hcompletes hopen hdb =>
      have hiff := hopen.finished_exec_iff env.completed
        (g := completed env.completedAt fetched inserted) fun _ => rfl
      rw [hfault _ hlossy.completed] at hiff
      rw [hdb]
      constructor
      · intro h
        exact ⟨fun _ => hiff.mp (h hexit), fun hnot => absurd hcompletes hnot⟩
      · intro h _
        exact hiff.mpr (h.completed hcompletes)
  | gaveUp mid reason hexit hnot hcap hopen hdb =>
      have hiff := hopen.finished_exec_iff env.dead (g := dead reason.message) fun _ => rfl
      rw [hfault _ hlossy.dead] at hiff
      rw [hdb]
      constructor
      · intro h
        exact ⟨fun hcompletes => absurd hcompletes hnot, fun _ _ => hiff.mp (h hexit)⟩
      · intro h _
        exact hiff.mpr (h.dead hnot hcap)

def sampleJob : Job where
  id := "job-1"
  req := { region := "US", maxResults := 50, idempotencyKey := "cron-US-1" }

def sampleDb : Db where
  jobs :=
    { rows := [newRow Time.zero sampleJob.id sampleJob.req]
      jobId_nodup := List.nodup_singleton _
      key_nodup := List.nodup_singleton _ }
  videos := .empty
  references := List.forall_mem_nil _

/-- The API answers with an empty list; the UPDATE to `done` is lost. -/
def lostCompletion : Env where
  get := fun _ _ => .response 200 "\x7b\"items\": []\x7d"
  completed := .lost

theorem sampleDb_unfinished : Unfinished sampleDb sampleJob.id :=
  ⟨newRow Time.zero sampleJob.id sampleJob.req, by decide, rfl⟩

private theorem lostCompletion_lossy : Lossy lostCompletion where
  started h := by cases h
  retrying _ h := by cases h
  inserting _ h := by cases h
  completed h := by cases h
  dead h := by cases h

theorem releasesFinished_iff_lostCompletion :
    ReleasesFinished lostCompletion sampleDb sampleJob ↔
      ClosingSucceeds lostCompletion sampleDb sampleJob :=
  releasesFinished_iff sampleDb_unfinished lostCompletion_lossy

/-- The error of UpdateJobCompleted is not looked at: the worker returns and the row
stays in `running`. -/
theorem lostCompletion_leaves_running :
    Unfinished sampleDb sampleJob.id ∧ Lossy lostCompletion ∧
      ¬ ReleasesFinished lostCompletion sampleDb sampleJob := by
  refine ⟨sampleDb_unfinished, lostCompletion_lossy, ?_⟩
  intro h
  have hreturned : (processJob lostCompletion sampleDb sampleJob).exit = .returned := by decide
  have hrow : ((processJob lostCompletion sampleDb sampleJob).db.jobs.byId sampleJob.id).map
      (·.state) = some .running := by decide
  obtain ⟨r, hr, hstate⟩ := h hreturned
  rw [hr, Option.map_some, Option.some.injEq] at hrow
  rw [hrow] at hstate
  cases hstate

end TrendingPipeline.Worker.Release
