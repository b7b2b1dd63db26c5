/- Unit: TrendingPipeline/Etl/WatchJob
   source: backend/etl/server.go, backend/db/db.go
   digest: A row read as a JobStatus, and WatchJob cut at its poll, its send and its sleep. -/

import TrendingPipeline.Store.Queries
import TrendingPipeline.Store.Statements

set_option autoImplicit false
set_option relaxedAutoImplicit false

namespace TrendingPipeline.Etl.WatchJob

open TrendingPipeline.Base.Calendar (Time)
open TrendingPipeline.Proto.Messages
open TrendingPipeline.Store.Tables (Db JobRow RowState)
open TrendingPipeline.Store.Statements (getJobByID)
open TrendingPipeline.Store.Queries (timestamptz)

def stringToJobState (s : String) : JobState :=
  if s = "queued" then .queued
  else if s = "running" then .running
  else if s = "retrying" then .retrying
  else if s = "done" then .done
  else if s = "dead" then .dead
  else .unspecified

/-- A timestamp column as `timestamppb.New` gives it after the Scan. -/
def columnTimestamp (t : Time) : Timestamp := Timestamp.ofTime (timestamptz t)

/-- The state of a row as GetJobByID reports it. -/
def stateOf (r : JobRow) : JobState := stringToJobState r.state.text

def scanJobStatus (r : JobRow) : JobStatus where
  jobId := r.jobId
  state := stateOf r
  region := r.region
  categoryId := r.categoryId
  attempt := r.attempt
  maxAttempts := r.maxAttempts
  videosFetched := r.videosFetched
  videosInserted := r.videosInserted
  errorMessage := r.errorMessage.getD ""
  nextRetryAt := r.nextRetryAt.map columnTimestamp
  createdAt := some (columnTimestamp r.createdAt)
  startedAt := r.startedAt.map columnTimestamp
  completedAt := r.completedAt.map columnTimestamp
  metadata := r.metadata

/-- queued < running < retrying < done, failed, dead. -/
def rank : JobState → Nat
  | .unspecified => 0
  | .queued => 1
  | .running => 2
  | .retrying => 3
  | .done | .failed | .dead => 4

def Before (a b : JobState) : Prop := rank a < rank b

instance : IsStrictOrder JobState Before where
  irrefl a := Nat.lt_irrefl (rank a)
  trans _ _ _ := Nat.lt_trans

instance (a b : JobState) : Decidable (Before a b) := inferInstanceAs (Decidable (_ < _))

def isTerminal (s : JobState) : Bool := s = .done || s = .failed || s = .dead

@[simp] theorem stateOf_terminal (r : JobRow) : isTerminal (stateOf r) = r.state.terminal := by
  unfold stateOf
  cases r.state <;> decide

theorem rank_stateOf_pos (r : JobRow) : 0 < rank (stateOf r) := by
  unfold stateOf
  cases r.state <;> decide

theorem rank_le (a : JobState) : rank a ≤ 4 := by
  cases a <;> decide

theorem isTerminal_iff (a : JobState) : isTerminal a = true ↔ rank a = 4 := by
  cases a <;> decide

inductive WatchError
  /-- `stream.Context().Err()` -/
  | context
  /-- GetJobByID failed, also for want of a row -/
  | read
  /-- `stream.Send` failed -/
  | send
  deriving DecidableEq

inductive Point
  /-- before the select on `stream.Context().Done()` -/
  | check
  /-- before GetJobByID -/
  | read
  /-- the state differs from `lastState`, before `stream.Send` -/
  | send (status : JobStatus)
  /-- before `time.Sleep` -/
  | sleep
  | returned (err : Option WatchError)
  deriving DecidableEq

/-- One WatchJob call in progress, with the messages it has sent. -/
structure Watch where
  req : WatchJobRequest
  lastState : JobState := .unspecified
  point : Point := .check
  sent : List JobUpdate := []
  deriving DecidableEq

/-- What the outside answers to the next thing the call does. -/
inductive Event
  | check (cancelled : Bool)
  | read (ok : Bool)
  | send (ok : Bool) (now : Time)
  | wake
  deriving DecidableEq

def updatedMessage : String := "State updated."

def updateOf (status : JobStatus) (now : Time) : JobUpdate where
  jobId := status.jobId
  state := status.state
  videosFetched := status.videosFetched
  videosInserted := status.videosInserted
  message := updatedMessage
  occurredAt := Timestamp.ofTime now

def afterUpdate (status : JobStatus) : Point :=
  if isTerminal status.state then .returned none else .sleep

def onRead (db : Db) (w : Watch) (ok : Bool) : Watch :=
  match ok, getJobByID db w.req.jobId with
  | true, some row =>
      let status := scanJobStatus row
      if status.state ≠ w.lastState then { w with point := .send status }
      else { w with point := afterUpdate status }
  | _, _ => { w with point := .returned (some .read) }

def onSend (w : Watch) (status : JobStatus) (ok : Bool) (now : Time) : Watch :=
  if ok then
    { w with
      lastState := status.state
      point := afterUpdate status
      sent := w.sent ++ [updateOf status now] }
  else { w with point := .returned (some .send) }

/-- One step of a call; `none` where the call does not stand before such an event. -/
def step (db : Db) (w : Watch) : Event → Option Watch
  | .check cancelled =>
      match w.point with
      | .check =>
          some { w with point := if cancelled then .returned (some .context) else .read }
      | _ => none
  | .read ok =>
      match w.point with
      | .read => some (onRead db w ok)
      | _ => none
  | .send ok now =>
      match w.point with
      | .send status => some (onSend w status ok now)
      | _ => none
  | .wake =>
      match w.point with
      | .sleep => some { w with point := .check }
      | _ => none

def Watch.hasReturned (w : Watch) : Bool :=
  match w.point with
  | .returned _ => true
  | .check | .read | .send _ | .sleep => false

/-- Sends and reads succeed and the stream is not cancelled. -/
def Event.undisturbed : Event → Bool
  | .check cancelled => !cancelled
  | .read ok => ok
  | .send ok _ => ok
  | .wake => true

/-- The undisturbed steps by their outcome, for a job whose row is there. -/
inductive Steps (row : JobRow) (w : Watch) : Watch → Prop
  | check : w.point = .check → Steps row w { w with point := .read }
  | differs : w.point = .read → stateOf row ≠ w.lastState →
      Steps row w { w with point := .send (scanJobStatus row) }
  | same : w.point = .read → stateOf row = w.lastState →
      Steps row w { w with point := afterUpdate (scanJobStatus row) }
  | sent (status : JobStatus) (now : Time) : w.point = .send status →
      Steps row w
        { w with
          lastState := status.state
          point := afterUpdate status
          sent := w.sent ++ [updateOf status now] }
  | woken : w.point = .sleep → Steps row w { w with point := .check }

theorem steps_of_step {db : Db} {w w' : Watch} {ev : Event} {row : JobRow}
    (hstep : step db w ev = some w') (hev : ev.undisturbed = true)
    (hrow : getJobByID db w.req.jobId = some row) : Steps row w w' := by
  cases ev with
  | check cancelled =>
      obtain rfl : cancelled = false := by simpa [Event.undisturbed] using hev
      simp only [step] at hstep
      split at hstep
      · obtain rfl := Option.some.inj hstep
        exact .check ‹_›
      · cases hstep
  | read ok =>
      obtain rfl : ok = true := hev
      simp only [step] at hstep
      split at hstep
      · obtain rfl := Option.some.inj hstep
        simp only [onRead, hrow]
        split
        · exact .differs ‹_› ‹_›
        · exact .same ‹_› (not_not.mp ‹_›)
      · cases hstep
  | send ok now =>
      obtain rfl : ok = true := hev
      simp only [step] at hstep
      split at hstep
      · obtain rfl := Option.some.inj hstep
        exact .sent _ now ‹_›
      · cases hstep
  | wake =>
      simp only [step] at hstep
      split at hstep
      · obtain rfl := Option.some.inj hstep
        exact .woken ‹_›
      · cases hstep

theorem steps_or_fails {db : Db} {w w' : Watch} {ev : Event} {row : JobRow}
    (hstep : step db w ev = some w') (hrow : getJobByID db w.req.jobId = some row) :
    Steps row w w' ∨ ∃ err, w' = { w with point := .returned (some err) } := by
  by_cases hev : ev.undisturbed = true
  · exact .inl (steps_of_step hstep hev hrow)
  · refine .inr ?_
    cases ev with
    | check cancelled =>
        obtain rfl : cancelled = true := by simpa [Event.undisturbed] using hev
        simp only [step] at hstep
        split at hstep
        · exact ⟨.context, (Option.some.inj hstep).symm⟩
        · cases hstep
    | read ok =>
        obtain rfl : ok = false := by simpa [Event.undisturbed] using hev
        simp only [step] at hstep
        split at hstep
        · exact ⟨.read, (Option.some.inj hstep).symm⟩
        · cases hstep
    | send ok now =>
        obtain rfl : ok = false := by simpa [Event.undisturbed] using hev
        simp only [step] at hstep
        split at hstep
        · exact ⟨.send, (Option.some.inj hstep).symm⟩
        · cases hstep
    | wake => exact absurd rfl hev

end TrendingPipeline.Etl.WatchJob
