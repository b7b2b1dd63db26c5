/- Unit: TrendingPipeline/System/Columns
   source: backend/worker/worker.go, backend/db/db.go
   digest: In every row of `jobs` the columns agree with the state. -/

import TrendingPipeline.System.Lifecycle

set_option autoImplicit false
set_option relaxedAutoImplicit false

namespace TrendingPipeline.System.Columns

open TrendingPipeline.Base.Runs (Reachable meets_true)
open TrendingPipeline.Store.Tables (JobProgress JobRow JobsTable)
open TrendingPipeline.Worker.ProcessJob (maxAttempts toInt_ofNat_of_le)
open TrendingPipeline.System.Step
open TrendingPipeline.System.Custody
open TrendingPipeline.System.Lifecycle
  (afterRun firstFailure lateSuccess run_firstFailure run_lateSuccess)
open TrendingPipeline.System.Rows

/-- What the columns some UPDATE writes have to do with the state. -/
structure ColumnsAgree (p : JobProgress) : Prop where
  nextRetryAt : p.nextRetryAt.isSome = true ↔ p.state = .retrying
  completedAt : p.completedAt.isSome = true ↔ p.state = .done
  unstarted : p.state = .queued → p.startedAt = none
  unfailed : p.state = .queued ∨ p.state = .running → p.attempt = 0
  failed : p.state = .retrying → 1 ≤ p.attempt.toInt ∧ p.attempt.toInt ≤ 3
  finished : p.state = .done → p.attempt.toInt ≤ 2 ∧ p.videosInserted = p.videosFetched
  uncounted : p.state ≠ .done → p.videosFetched = 0 ∧ p.videosInserted = 0

variable {p : JobProgress} {k : Nat}

private theorem Waiting.columnsAgree (h : Waiting p) : ColumnsAgree p := by
  obtain rfl := h
  constructor <;> simp

private theorem Attempted.columnsAgree (h : Attempted k p) : ColumnsAgree p := by
  have hattempt : p.attempt.toInt = k := by rw [h.attempt, toInt_ofNat_of_le h.bound]
  have hbound : k ≤ 3 := h.bound
  have hstate := h.state
  by_cases hzero : k = 0
  · rw [if_pos hzero] at hstate
    constructor
    · simp [h.nextRetryAt, hstate, hzero]
    · simp [h.completedAt, hstate]
    · simp [hstate]
    · intro _
      rw [h.attempt, hzero]
      rfl
    · simp [hstate]
    · simp [hstate]
    · exact fun _ => ⟨h.videosFetched, h.videosInserted⟩
  · rw [if_neg hzero] at hstate
    constructor
    · simp [h.nextRetryAt, hstate, Nat.pos_of_ne_zero hzero]
    · simp [h.completedAt, hstate]
    · simp [hstate]
    · simp [hstate]
    · intro _
      rw [hattempt]
      omega
    · simp [hstate]
    · exact fun _ => ⟨h.videosFetched, h.videosInserted⟩

private theorem Completed.columnsAgree (h : Completed k p) : ColumnsAgree p where
  nextRetryAt := by simp [h.nextRetryAt, h.state]
  completedAt := by simp [h.completedAt, h.state]
  unstarted := by simp [h.state]
  unfailed := by simp [h.state]
  failed := by simp [h.state]
  finished _ := by
    have hbound : k < 3 := h.bound
    rw [h.attempt, toInt_ofNat_of_le h.bound.le]
    exact ⟨by omega, h.counts⟩
  uncounted hnot := absurd h.state hnot

private theorem GivenUp.columnsAgree (h : GivenUp k p) : ColumnsAgree p where
  nextRetryAt := by simp [h.nextRetryAt, h.state]
  completedAt := by simp [h.completedAt, h.state]
  unstarted := by simp [h.state]
  unfailed := by simp [h.state]
  failed := by simp [h.state]
  finished := by simp [h.state]
  uncounted _ := ⟨h.videosFetched, h.videosInserted⟩

theorem new_of_queued {s : State} (h : Reachable Migrated step Anything s) {r : JobRow}
    (hr : r ∈ s.db.jobs.rows) (hqueued : r.state = .queued) : r.toJobProgress = {} := by
  have hrow : s.db.jobs.byId r.jobId = some r := JobsTable.byId_eq_some_iff.mpr ⟨hr, rfl⟩
  exact waiting_of_queued (regular_of_reachable h r.jobId r hrow) hqueued

/-- Whatever statements fail and whatever the fetches give. -/
theorem columns_agree {s : State} (h : Reachable Migrated step Anything s) :
    ∀ r ∈ s.db.jobs.rows, ColumnsAgree r.toJobProgress := by
  intro r hr
  have hrow : s.db.jobs.byId r.jobId = some r := JobsTable.byId_eq_some_iff.mpr ⟨hr, rfl⟩
  rcases regular_of_reachable h r.jobId r hrow with hopen | hclosed
  · rcases hopen with hwait | ⟨k, hk⟩
    · exact Waiting.columnsAgree hwait
    · exact Attempted.columnsAgree hk
  · rcases hclosed with ⟨k, hk⟩ | ⟨k, hk⟩
    · exact Completed.columnsAgree hk
    · exact GivenUp.columnsAgree hk

/-- After a failed attempt and after the success of the next. -/
theorem columns_agree_lateSuccess :
    (∃ r ∈ (afterRun firstFailure).db.jobs.rows, r.state = .retrying ∧
        ColumnsAgree r.toJobProgress) ∧
      ∃ r ∈ (afterRun lateSuccess).db.jobs.rows, r.state = .done ∧
        ColumnsAgree r.toJobProgress := by
  have hfailed : Reachable Migrated step Anything (afterRun firstFailure) :=
    .of_run rfl run_firstFailure (meets_true _ _)
  have hdone : Reachable Migrated step Anything (afterRun lateSuccess) :=
    .of_run rfl run_lateSuccess (meets_true _ _)
  obtain ⟨r, hr, hretrying⟩ : ∃ r ∈ (afterRun firstFailure).db.jobs.rows, r.state = .retrying := by
    decide
  obtain ⟨r', hr', hended⟩ : ∃ r ∈ (afterRun lateSuccess).db.jobs.rows, r.state = .done := by
    decide
  exact ⟨⟨r, hr, hretrying, columns_agree hfailed r hr⟩,
    ⟨r', hr', hended, columns_agree hdone r' hr'⟩⟩

end TrendingPipeline.System.Columns
