/- Unit: TrendingPipeline/Worker/ProcessJob
   source: backend/worker/worker.go
   digest: One run of processJob from its first statement to its return. -/

import TrendingPipeline.Store.Statements

set_option autoImplicit false
set_option relaxedAutoImplicit false

namespace TrendingPipeline.Worker.ProcessJob

open TrendingPipeline.Base.Calendar (Time)
open TrendingPipeline.Proto.Messages (JobRequest)
open TrendingPipeline.Store.Tables (Db)
open TrendingPipeline.Store.Statements
open TrendingPipeline.Youtube.FetchTrending (Client FetchError HttpResult Outcome Video
  fetchTrending)

/-- `worker.Job`: the id of the row and the request it was made from. -/
structure Job where
  id : String
  req : JobRequest
  deriving DecidableEq

def maxAttempts : Nat := 3

theorem toInt_ofNat_of_le {k : Nat} (hk : k ≤ maxAttempts) : (Int32.ofNat k).toInt = k :=
  Int32.toInt_ofNat_of_lt (Nat.lt_of_le_of_lt hk (by decide))

def backoff (attempt : Nat) : Int := 2 ^ attempt

def fetchErrorMessage : String := "Error fetching data from YouTube API."

inductive DeadReason
  | started
  | retrying
  | inserting
  | exhausted
  deriving DecidableEq

def DeadReason.message : DeadReason → String
  | .started => "Failed to update job as started."
  | .retrying => "Failed to update job as failed."
  | .inserting => "Failed to insert video data into database."
  | .exhausted => "Max retry attempts reached."

/-- What the outside answers during one run: the fate of each statement, the
answers of the API by attempt, and the clock. The statements of the insert loop are
told apart by the number of videos left after them. -/
structure Env where
  client : Client := {}
  get : Nat → List (String × String) → HttpResult
  fetchClock : Nat → Nat → Time := fun _ _ => Time.zero
  started : Fault := .none
  startedAt : Time := Time.zero
  retrying : Nat → Fault := fun _ => .none
  retryClock : Nat → Time := fun _ => Time.zero
  inserting : Nat → Fault := fun _ => .none
  completed : Fault := .none
  completedAt : Time := Time.zero
  dead : Fault := .none

inductive Exit
  | returned
  | panicked
  deriving DecidableEq

/-- The end of a run, with the FetchTrending calls it made and the seconds it slept. -/
structure Ending where
  exit : Exit
  db : Db
  fetches : Nat := 0
  slept : Int := 0

/-- The call FetchTrending makes in an attempt. -/
def Env.fetch (env : Env) (job : Job) (attempt : Nat) : Outcome (Except FetchError (List Video)) :=
  fetchTrending env.client (env.get attempt) (env.fetchClock attempt) job.req job.id

/-- Every exit but two goes through UpdateJobDead, whose error is not looked at. -/
def Env.giveUp (env : Env) (job : Job) (reason : DeadReason) (db : Db) : Ending where
  exit := .returned
  db := (env.dead.exec db (some (updateJobDead db job.id reason.message))).2

/-- The loop over the fetched videos: whether all were inserted, the tables after
it and the count so far. -/
def insertLoop (env : Env) : List Video → Db → Int32 → Bool × Db × Int32
  | [], db, videosInserted => (true, db, videosInserted)
  | v :: vs, db, videosInserted =>
      match (env.inserting vs.length).exec db (insertVideo db v) with
      | (true, db) => insertLoop env vs db (videosInserted + 1)
      | (false, db) => (false, db, videosInserted)

def ingest (env : Env) (job : Job) (videos : List Video) (db : Db) : Ending :=
  let videosFetched := Int32.ofNat videos.length
  match insertLoop env videos db 0 with
  | (false, db, _) => env.giveUp job .inserting db
  | (true, db, videosInserted) =>
      { exit := .returned
        db := (env.completed.exec db
          (some (updateJobCompleted db job.id env.completedAt videosFetched videosInserted))).2 }

/-- The attempts from `attempt` on, `left` of them. -/
def attemptLoop (env : Env) (job : Job) : (left attempt : Nat) → Db → Ending
  | 0, _, db => env.giveUp job .exhausted db
  | left + 1, attempt, db =>
      match env.fetch job attempt with
      | .panicked => { exit := .panicked, db := db, fetches := 1 }
      | .returned (.error _) =>
          let nextRetryAt := (env.retryClock attempt).addSeconds (backoff attempt)
          match (env.retrying attempt).exec db (some (updateJobRetrying db job.id
              fetchErrorMessage (Int32.ofNat attempt) nextRetryAt)) with
          | (false, db) => { env.giveUp job .retrying db with fetches := 1 }
          | (true, db) =>
              let rest := attemptLoop env job left (attempt + 1) db
              { rest with fetches := rest.fetches + 1, slept := rest.slept + backoff attempt }
      | .returned (.ok videos) => { ingest env job videos db with fetches := 1 }

/-- `Worker.processJob`. -/
def processJob (env : Env) (db : Db) (job : Job) : Ending :=
  match env.started.exec db (some (updateJobStarted db job.id env.startedAt)) with
  | (false, db) => env.giveUp job .started db
  | (true, db) => attemptLoop env job maxAttempts 1 db

end TrendingPipeline.Worker.ProcessJob
