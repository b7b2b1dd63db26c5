/- Unit: TrendingPipeline/Frontend/JobView
   source: frontend/components/job-detail.tsx, frontend/lib/jobs.ts
   digest: The job page on the objects it gets, and the page of messages that it shows. -/

import TrendingPipeline.Etl.Responses
import TrendingPipeline.Frontend.JobDetail

set_option autoImplicit false
set_option relaxedAutoImplicit false

namespace TrendingPipeline.Frontend.JobView

open TrendingPipeline.Base.Decimal (decimal)
open TrendingPipeline.Base.JsonMembers (Members objectOf property_objectOf)
open TrendingPipeline.Base.JsonText (Json)
open TrendingPipeline.Base.JsValue (nearestDouble_eq numberOf numberOf_decimal property)
open TrendingPipeline.Etl.Responses
open TrendingPipeline.Etl.WatchJob (isTerminal)
open TrendingPipeline.Frontend.JobDetail (Loaded Page maxUpdates)
open TrendingPipeline.Proto.Messages (JobState JobStatus JobUpdate)

/-- An object by its properties; `none` is `undefined`. -/
abbrev Object := String → Option Json

/-- A parsed value as the page treats it; null is no object. -/
def asObject : Json → Option Object
  | .null => none
  | v => some fun name => (property name v).getD none

/-- `{ ...o, name: value }`. -/
def Object.with (o : Object) (name : String) (value : Option Json) : Object :=
  fun name' => if name' = name then value else o name'

/-- The number of a property, if it is one. -/
def numberIn : Option Json → Option ℤ
  | some (.num literal) => numberOf literal
  | _ => none

/-- `value ?? 0` of a number that may be missing. -/
def orZero (value : Option Json) : ℤ := (numberIn value).getD 0

/-- `isTerminalState(o.state)`. -/
def isTerminalState (o : Object) : Bool :=
  let state := numberIn (o "state")
  state = some 1 || state = some 2 || state = some 6

def attemptRow (job : Object) : ℤ × ℤ := (orZero (job "attempt") + 1, orZero (job "max_attempts"))

/-- `job.error_message && …`. -/
def errorPanel (job : Object) : Option String :=
  match job "error_message" with
  | some (.str s) => if s = "" then none else some s
  | _ => none

structure View where
  job : Option Object := none
  loading : Bool := true
  error : Option String := none
  liveConnected : Bool := false
  updates : List Object := []

/-- What getJobStatus settles with: the data, or the message of what was thrown. -/
abbrev Settled := Except (Option String) Json

def View.loaded (v : View) : Settled → View
  | .ok data => { v with job := asObject data, loading := false }
  | .error message => { v with error := some (message.getD "Failed to load job"), loading := false }

def View.refetched (v : View) : Settled → View
  | .ok data => { v with job := asObject data }
  | .error _ => v

def View.onUpdate (v : View) (update : Object) : View :=
  { v with
    job := v.job.map fun prev =>
      ((prev.with "state" (update "state")).with "videos_fetched" (update "videos_fetched")).with
        "videos_inserted" (update "videos_inserted")
    liveConnected := v.liveConnected && !isTerminalState update
    updates := (update :: v.updates).take maxUpdates }

def View.disconnected (v : View) : View := { v with liveConnected := false }

/-- Every field of the message can be read in the object. -/
def Shows {α : Type} (ms : Members α) (o : Object) (a : α) : Prop := ∀ m ∈ ms, o m.1 = m.2 a

theorem shows_objectOf {α : Type} {ms : Members α} (hnames : (ms.map Prod.fst).Nodup) (a : α) :
    ∃ o, asObject (objectOf ms a) = some o ∧ Shows ms o a := by
  refine ⟨_, rfl, ?_⟩
  intro m hm
  have hread := property_objectOf hnames hm a
  exact (congrArg (·.getD none) hread : _)

theorem numberIn_number (n : Int32) :
    numberIn (number n) = if n = 0 then none else some n.toInt := by
  change numberIn (if n = 0 then none else some (.num (decimal n.toInt))) = _
  split
  · rfl
  · have hmin := n.le_toInt
    have hmax := n.toInt_lt
    have hsmall : n.toInt.natAbs < 2 ^ 53 := by omega
    rw [numberIn, numberOf_decimal, nearestDouble_eq hsmall]

theorem orZero_number (n : Int32) : orZero (number n) = n.toInt := by
  rw [orZero, numberIn_number]
  split
  · next hzero =>
      rw [hzero]
      rfl
  · rfl

section Status

variable {o : Object} {job : JobStatus}

theorem attemptRow_eq (h : Shows jobStatus o job) :
    attemptRow o = JobDetail.attemptRow job := by
  have hattempt : o "attempt" = number job.attempt :=
    h ("attempt", fun s => number s.attempt) (by simp [jobStatus])
  have hmax : o "max_attempts" = number job.maxAttempts :=
    h ("max_attempts", fun s => number s.maxAttempts) (by simp [jobStatus])
  rw [attemptRow, hattempt, hmax, orZero_number, orZero_number, JobDetail.attemptRow_eq]

theorem errorPanel_eq (h : Shows jobStatus o job) : errorPanel o = JobDetail.errorPanel job := by
  have herror : o "error_message" = text job.errorMessage :=
    h ("error_message", fun s => text s.errorMessage) (by simp [jobStatus])
  have htext : text job.errorMessage =
      if job.errorMessage = "" then none else some (.str job.errorMessage) := rfl
  rw [errorPanel, herror, htext, JobDetail.errorPanel]
  by_cases hempty : job.errorMessage = ""
  · rw [if_pos hempty, if_pos hempty]
  · rw [if_neg hempty, if_neg hempty]
    exact if_neg hempty

private theorem isTerminalState_of_state {state : JobState}
    (h : o "state" = number (enumValue state)) :
    isTerminalState o = isTerminal state := by
  rw [isTerminalState, h, numberIn_number]
  cases state <;> decide

theorem isTerminalState_status (h : Shows jobStatus o job) :
    isTerminalState o = isTerminal job.state :=
  isTerminalState_of_state (h ("state", fun s => number (enumValue s.state)) (by simp [jobStatus]))

end Status

section Update

variable {o prev : Object} {u : JobUpdate} {job : JobStatus}

theorem isTerminalState_update (h : Shows jobUpdate o u) :
    isTerminalState o = isTerminal u.state :=
  isTerminalState_of_state (h ("state", fun u => number (enumValue u.state)) (by simp [jobUpdate]))

private theorem shows_updated (hprev : Shows jobStatus prev job) (h : Shows jobUpdate o u) :
    Shows jobStatus
      (((prev.with "state" (o "state")).with "videos_fetched" (o "videos_fetched")).with
        "videos_inserted" (o "videos_inserted"))
      { job with
        state := u.state
        videosFetched := u.videosFetched
        videosInserted := u.videosInserted } := by
  have hstate : o "state" = number (enumValue u.state) :=
    h ("state", fun u => number (enumValue u.state)) (by simp [jobUpdate])
  have hfetched : o "videos_fetched" = number u.videosFetched :=
    h ("videos_fetched", fun u => number u.videosFetched) (by simp [jobUpdate])
  have hinserted : o "videos_inserted" = number u.videosInserted :=
    h ("videos_inserted", fun u => number u.videosInserted) (by simp [jobUpdate])
  intro m hm
  have hold := hprev m hm
  simp only [jobStatus, List.mem_cons, List.not_mem_nil, or_false] at hm
  rcases hm with rfl | rfl | rfl | rfl | rfl | rfl | rfl | rfl | rfl | rfl | rfl | rfl | rfl | rfl
  all_goals simp_all [Object.with]

end Update

structure Mirrors (v : View) (p : Page) : Prop where
  job : Option.Rel (Shows jobStatus) v.job p.job
  loading : v.loading = p.loading
  error : v.error = p.error
  liveConnected : v.liveConnected = p.liveConnected
  updates : List.Forall₂ (Shows jobUpdate) v.updates p.updates

/-- Data for the status, or the same error. -/
inductive Answers : Settled → Loaded → Prop
  | ok {data : Json} {o : Object} {status : JobStatus} : asObject data = some o →
      Shows jobStatus o status → Answers (.ok data) (.ok status)
  | error (message : Option String) : Answers (.error message) (.error message)

section Steps

variable {v : View} {p : Page}

theorem mirrors_start : Mirrors {} {} where
  job := .none
  loading := rfl
  error := rfl
  liveConnected := rfl
  updates := .nil

theorem Mirrors.loaded (h : Mirrors v p) {a : Settled} {l : Loaded} (hanswer : Answers a l) :
    Mirrors (v.loaded a) (p.loaded l) := by
  cases hanswer with
  | ok hobject hshows =>
      refine ⟨?_, rfl, h.error, h.liveConnected, h.updates⟩
      change Option.Rel _ (asObject _) _
      rw [hobject]
      exact .some hshows
  | error message => exact ⟨h.job, rfl, rfl, h.liveConnected, h.updates⟩

theorem Mirrors.refetched (h : Mirrors v p) {a : Settled} {l : Loaded} (hanswer : Answers a l) :
    Mirrors (v.refetched a) (p.refetched l) := by
  cases hanswer with
  | ok hobject hshows =>
      refine ⟨?_, h.loading, h.error, h.liveConnected, h.updates⟩
      change Option.Rel _ (asObject _) _
      rw [hobject]
      exact .some hshows
  | error message => exact h

theorem Mirrors.onUpdate (h : Mirrors v p) {o : Object} {u : JobUpdate}
    (hshows : Shows jobUpdate o u) : Mirrors (v.onUpdate o) (p.onUpdate u) := by
  refine ⟨?_, h.loading, h.error, ?_, ?_⟩
  · have hjob := h.job
    change Option.Rel _ (v.job.map _) (p.job.map _)
    cases hv : v.job with
    | none =>
        rw [hv] at hjob
        cases hp : p.job with
        | none => exact .none
        | some job =>
            rw [hp] at hjob
            cases hjob
    | some prev =>
        rw [hv] at hjob
        cases hp : p.job with
        | none =>
            rw [hp] at hjob
            cases hjob
        | some job =>
            rw [hp] at hjob
            cases hjob with
            | some hprev => exact .some (shows_updated hprev hshows)
  · change (v.liveConnected && !isTerminalState o) = (p.liveConnected && !_)
    rw [h.liveConnected, isTerminalState_update hshows, JobDetail.isTerminalState_number]
  · exact List.forall₂_take _ (.cons hshows h.updates)

theorem Mirrors.disconnected (h : Mirrors v p) : Mirrors v.disconnected p.disconnected :=
  ⟨h.job, h.loading, h.error, rfl, h.updates⟩

theorem Mirrors.connected (h : Mirrors v p) :
    Mirrors { v with liveConnected := true } { p with liveConnected := true } :=
  ⟨h.job, h.loading, h.error, rfl, h.updates⟩

end Steps

end TrendingPipeline.Frontend.JobView
