/- Unit: TrendingPipeline/Frontend/Progress
   source: frontend/components/job-detail.tsx
   digest: The counts of a job and the two progress bars under them. -/

import TrendingPipeline.Base.Doubles
import TrendingPipeline.Frontend.JobView

set_option autoImplicit false
set_option relaxedAutoImplicit false

namespace TrendingPipeline.Frontend.Progress

open TrendingPipeline.Base.Doubles (Number)
open TrendingPipeline.Base.Doubles.Number (dividedBy_self min_self ofInt round_ofInt times_ofInt)
open TrendingPipeline.Base.JsonText (Json)
open TrendingPipeline.Etl.Responses (enumValue jobStatus jobUpdate number)
open TrendingPipeline.Etl.WatchJob (isTerminal)
open TrendingPipeline.Frontend.JobView
open TrendingPipeline.Proto.Messages (JobState JobStatus JobUpdate)

/-- `{job.videos_inserted ?? 0} / {job.videos_fetched ?? 0}`. -/
def countsRow (job : Object) : ℤ × ℤ :=
  (orZero (job "videos_inserted"), orZero (job "videos_fetched"))

/-- `Math.max(job.videos_fetched ?? 0, job.videos_inserted ?? 0, 1)`. -/
def progressMax (job : Object) : ℤ :=
  max (max (orZero (job "videos_fetched")) (orZero (job "videos_inserted"))) 1

def hasData (job : Object) : Bool :=
  0 < orZero (job "videos_fetched") || 0 < orZero (job "videos_inserted")

/-- `Math.min(100, Math.round((count / progressMax) * 100))`. -/
def percentOf (job : Object) (count : ℤ) : Number :=
  (ofInt 100).min ((((ofInt count).dividedBy (ofInt (progressMax job))).times (ofInt 100)).round)

/-- `fetchedPct`, null without data. -/
def fetchedPct (job : Object) : Option Number :=
  if hasData job then some (percentOf job (orZero (job "videos_fetched"))) else none

/-- `insertedPct`, null without data. -/
def insertedPct (job : Object) : Option Number :=
  if hasData job then some (percentOf job (orZero (job "videos_inserted"))) else none

/-- Under a count stands a Progress, or a track that waits for the first data. -/
inductive Bar
  | waiting
  | progress (value : Number)

/-- `pct === null && isActive ? … : <Progress value={pct ?? 100} />`. -/
def bar (job : Object) : Option Number → Bar
  | none => if isTerminalState job then .progress (ofInt 100) else .waiting
  | some pct => .progress pct

def fetchedBar (job : Object) : Bar := bar job (fetchedPct job)

def insertedBar (job : Object) : Bar := bar job (insertedPct job)

/-- `fetched {u.videos_fetched} · inserted {u.videos_inserted}` of an update. -/
def updateLine (u : Object) : Option Json × Option Json :=
  (u "videos_fetched", u "videos_inserted")

/-- As many videos are inserted as were fetched, and none unless the job is done. -/
structure Matched (state : JobState) (fetched inserted : Int32) : Prop where
  counts : inserted = fetched
  undone : state ≠ .done → fetched = 0

private theorem percentOf_whole {job : Object} {n : ℤ} (hn : n = progressMax job) :
    percentOf job n = ofInt 100 := by
  have hpos : 1 ≤ progressMax job := le_max_right _ _
  have hne : n ≠ 0 := by omega
  have hhundred : (ofInt 1).times (ofInt 100) = ofInt 100 := times_ofInt (by norm_num)
  rw [percentOf, ← hn, dividedBy_self hne, hhundred, round_ofInt, min_self]

private theorem undone_of_number {o : Object} {state : JobState}
    (h : o "state" = number (enumValue state)) (hnumber : numberIn (o "state") ≠ some 1) :
    state ≠ .done := by
  rintro rfl
  apply hnumber
  rw [h, numberIn_number]
  decide

section Job

variable {o : Object} {job : JobStatus}

private theorem countsRow_eq (h : Shows jobStatus o job) :
    countsRow o = (job.videosInserted.toInt, job.videosFetched.toInt) := by
  have hfetched : o "videos_fetched" = number job.videosFetched :=
    h ("videos_fetched", fun s => number s.videosFetched) (by simp [jobStatus])
  have hinserted : o "videos_inserted" = number job.videosInserted :=
    h ("videos_inserted", fun s => number s.videosInserted) (by simp [jobStatus])
  rw [countsRow, hfetched, hinserted, orZero_number, orZero_number]

private theorem bars_of_equal (h : orZero (o "videos_inserted") = orZero (o "videos_fetched")) :
    insertedBar o = fetchedBar o ∧
      fetchedBar o =
        if 0 < orZero (o "videos_fetched") ∨ isTerminalState o = true
        then .progress (ofInt 100) else .waiting := by
  have hsame : insertedPct o = fetchedPct o := by
    rw [insertedPct, fetchedPct, h]
  constructor
  · rw [insertedBar, fetchedBar, hsame]
  · by_cases hdata : 0 < orZero (o "videos_fetched")
    · have hhas : hasData o = true := by
        rw [hasData, decide_eq_true hdata, Bool.true_or]
      have hmax : orZero (o "videos_fetched") = progressMax o := by
        rw [progressMax, h, max_self, max_eq_left]
        omega
      rw [fetchedBar, fetchedPct, if_pos hhas, percentOf_whole hmax, if_pos (.inl hdata)]
      rfl
    · have hhas : ¬ hasData o = true := by
        rw [hasData, h, Bool.or_self]
        exact of_decide_eq_true.mt hdata
      rw [fetchedBar, fetchedPct, if_neg hhas]
      simp only [bar, hdata, false_or]

/-- Of a job whose counts match, both bars are full when the job is over, and wait before. -/
theorem bars_of_matched (h : Shows jobStatus o job)
    (hmatched : Matched job.state job.videosFetched job.videosInserted) :
    insertedBar o = fetchedBar o ∧
      fetchedBar o = if isTerminal job.state = true then .progress (ofInt 100) else .waiting := by
  have hcounts := countsRow_eq h
  rw [hmatched.counts] at hcounts
  have hinserted := congrArg Prod.fst hcounts
  have hfetched := congrArg Prod.snd hcounts
  obtain ⟨hsame, hfull⟩ := bars_of_equal (hinserted.trans hfetched.symm)
  refine ⟨hsame, ?_⟩
  rw [hfull, isTerminalState_status h]
  refine if_congr ?_ rfl rfl
  constructor
  · rintro (hdata | hterminal)
    · by_cases hdone : job.state = .done
      · rw [hdone]
        rfl
      · have hzero : orZero (o "videos_fetched") = 0 := by
          rw [show orZero (o "videos_fetched") = job.videosFetched.toInt from hfetched,
            hmatched.undone hdone]
          rfl
        omega
    · exact hterminal
  · exact .inr

theorem countsRow_of_matched (h : Shows jobStatus o job)
    (hmatched : Matched job.state job.videosFetched job.videosInserted) :
    (countsRow o).1 = (countsRow o).2 ∧
      (numberIn (o "state") ≠ some 1 → countsRow o = (0, 0)) := by
  have hstate : o "state" = number (enumValue job.state) :=
    h ("state", fun s => number (enumValue s.state)) (by simp [jobStatus])
  rw [countsRow_eq h, hmatched.counts]
  refine ⟨rfl, fun hnumber => ?_⟩
  rw [hmatched.undone (undone_of_number hstate hnumber)]
  rfl

end Job

theorem updateLine_of_matched {o : Object} {u : JobUpdate} (h : Shows jobUpdate o u)
    (hmatched : Matched u.state u.videosFetched u.videosInserted) :
    (updateLine o).2 = (updateLine o).1 ∧
      (numberIn (o "state") ≠ some 1 → (updateLine o).1 = none) := by
  have hstate : o "state" = number (enumValue u.state) :=
    h ("state", fun u => number (enumValue u.state)) (by simp [jobUpdate])
  have hfetched : o "videos_fetched" = number u.videosFetched :=
    h ("videos_fetched", fun u => number u.videosFetched) (by simp [jobUpdate])
  have hinserted : o "videos_inserted" = number u.videosInserted :=
    h ("videos_inserted", fun u => number u.videosInserted) (by simp [jobUpdate])
  constructor
  · show o "videos_inserted" = o "videos_fetched"
    rw [hfetched, hinserted, hmatched.counts]
  · intro hnumber
    show o "videos_fetched" = none
    rw [hfetched, hmatched.undone (undone_of_number hstate hnumber)]
    rfl

end TrendingPipeline.Frontend.Progress
