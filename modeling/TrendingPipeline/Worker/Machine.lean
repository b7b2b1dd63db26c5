/- Unit: TrendingPipeline/Worker/Machine
   source: backend/worker/worker.go
   digest: processJob cut at its statements, and its agreement with the uncut run. -/

import TrendingPipeline.Worker.ProcessJob

/-!
processJob is cut wherever it waits for the database, the API or the clock, since other
steps of the process may come in between. Run from its start with nothing in between, the
pieces give what the uncut function gives.
-/

set_option autoImplicit false
set_option relaxedAutoImplicit false

namespace TrendingPipeline.Worker.Machine

open TrendingPipeline.Base.Calendar (Time)
open TrendingPipeline.Store.Tables (Db)
open TrendingPipeline.Store.Statements
open TrendingPipeline.Worker.ProcessJob
open TrendingPipeline.Youtube.FetchTrending (Client FetchError HttpResult Outcome Video
  fetchTrending fetchTrending_ok)

/-- Where processJob stands between two interactions with the outside. -/
inductive Point
  /-- before UpdateJobStarted -/
  | start
  /-- before FetchTrending -/
  | fetch (attempt : Nat)
  /-- a fetch failed, before UpdateJobRetrying -/
  | retry (attempt : Nat)
  /-- before the backoff -/
  | sleep (attempt : Nat)
  /-- before the InsertVideo of the first video left, or before UpdateJobCompleted -/
  | ingest (attempt : Nat) (todo : List Video) (videosFetched videosInserted : Int32)
  /-- before UpdateJobDead -/
  | dead (reason : DeadReason)
  deriving DecidableEq

/-- What the outside answers to one step; a step uses what it asks for. -/
structure Input where
  client : Client := {}
  get : List (String × String) → HttpResult := fun _ => .transportError
  clock : Nat → Time := fun _ => Time.zero
  fault : Fault := .none

inductive Next
  | goto (p : Point)
  | returned
  | panicked
  deriving DecidableEq

def step (job : Job) (inp : Input) (db : Db) : Point → Next × Db
  | .start =>
      match inp.fault.exec db (some (updateJobStarted db job.id (inp.clock 0))) with
      | (true, db) => (.goto (.fetch 1), db)
      | (false, db) => (.goto (.dead .started), db)
  | .fetch attempt =>
      match fetchTrending inp.client inp.get inp.clock job.req job.id with
      | .panicked => (.panicked, db)
      | .returned (.error _) => (.goto (.retry attempt), db)
      | .returned (.ok videos) =>
          (.goto (.ingest attempt videos (Int32.ofNat videos.length) 0), db)
  | .retry attempt =>
      match inp.fault.exec db (some (updateJobRetrying db job.id fetchErrorMessage
          (Int32.ofNat attempt) ((inp.clock 0).addSeconds (backoff attempt)))) with
      | (true, db) => (.goto (.sleep attempt), db)
      | (false, db) => (.goto (.dead .retrying), db)
  | .sleep attempt =>
      if attempt + 1 < maxAttempts + 1 then (.goto (.fetch (attempt + 1)), db)
      else (.goto (.dead .exhausted), db)
  | .ingest attempt (v :: vs) videosFetched videosInserted =>
      match inp.fault.exec db (insertVideo db v) with
      | (true, db) => (.goto (.ingest attempt vs videosFetched (videosInserted + 1)), db)
      | (false, db) => (.goto (.dead .inserting), db)
  | .ingest _ [] videosFetched videosInserted =>
      (.returned, (inp.fault.exec db
        (some (updateJobCompleted db job.id (inp.clock 0) videosFetched videosInserted))).2)
  | .dead reason =>
      (.returned, (inp.fault.exec db (some (updateJobDead db job.id reason.message))).2)

/-- What an environment answers to the step at a point. -/
def inputAt (env : Env) : Point → Input
  | .start => { fault := env.started, clock := fun _ => env.startedAt }
  | .fetch attempt =>
      { client := env.client, get := env.get attempt, clock := env.fetchClock attempt }
  | .retry attempt => { fault := env.retrying attempt, clock := fun _ => env.retryClock attempt }
  | .sleep _ => {}
  | .ingest _ (_ :: vs) _ _ => { fault := env.inserting vs.length }
  | .ingest _ [] _ _ => { fault := env.completed, clock := fun _ => env.completedAt }
  | .dead _ => { fault := env.dead }

/-- The steps from a point to the end of the run, undisturbed by others. -/
inductive RunsTo (env : Env) (job : Job) : Point → Db → Exit → Db → Prop
  | goto {p q : Point} {db m last : Db} {exit : Exit} :
      step job (inputAt env p) db p = (.goto q, m) → RunsTo env job q m exit last →
      RunsTo env job p db exit last
  | returned {p : Point} {db last : Db} :
      step job (inputAt env p) db p = (.returned, last) → RunsTo env job p db .returned last
  | panicked {p : Point} {db last : Db} :
      step job (inputAt env p) db p = (.panicked, last) → RunsTo env job p db .panicked last

theorem RunsTo.unique {env : Env} {job : Job} {p : Point} {db last last' : Db}
    {exit exit' : Exit} (h : RunsTo env job p db exit last)
    (h' : RunsTo env job p db exit' last') : exit = exit' ∧ last = last' := by
  induction h generalizing exit' last' with
  | goto hstep _ ih =>
      cases h' with
      | goto hstep' hrest' =>
          obtain ⟨hnext, rfl⟩ := Prod.mk.inj (hstep.symm.trans hstep')
          obtain rfl := Next.goto.inj hnext
          exact ih hrest'
      | returned hstep' => cases (Prod.mk.inj (hstep.symm.trans hstep')).1
      | panicked hstep' => cases (Prod.mk.inj (hstep.symm.trans hstep')).1
  | returned hstep =>
      cases h' with
      | goto hstep' _ => cases (Prod.mk.inj (hstep.symm.trans hstep')).1
      | returned hstep' => exact ⟨rfl, (Prod.mk.inj (hstep.symm.trans hstep')).2⟩
      | panicked hstep' => cases (Prod.mk.inj (hstep.symm.trans hstep')).1
  | panicked hstep =>
      cases h' with
      | goto hstep' _ => cases (Prod.mk.inj (hstep.symm.trans hstep')).1
      | returned hstep' => cases (Prod.mk.inj (hstep.symm.trans hstep')).1
      | panicked hstep' => exact ⟨rfl, (Prod.mk.inj (hstep.symm.trans hstep')).2⟩

section Agreement

variable {env : Env} {job : Job}

private theorem runsTo_giveUp (reason : DeadReason) (db : Db) :
    RunsTo env job (.dead reason) db (env.giveUp job reason db).exit
      (env.giveUp job reason db).db :=
  .returned rfl

def afterLoop (attempt : Nat) (fetched : Int32) : Bool × Db × Int32 → Point
  | (false, _, _) => .dead .inserting
  | (true, _, n) => .ingest attempt [] fetched n

private theorem runsTo_insertLoop (attempt : Nat) (fetched : Int32) (videos : List Video) (db : Db)
    (inserted : Int32) {exit : Exit} {last : Db}
    (h : RunsTo env job (afterLoop attempt fetched (insertLoop env videos db inserted))
      (insertLoop env videos db inserted).2.1 exit last) :
    RunsTo env job (.ingest attempt videos fetched inserted) db exit last := by
  induction videos generalizing db inserted with
  | nil => exact h
  | cons v vs ih =>
      simp only [insertLoop] at h
      cases hexec : (env.inserting vs.length).exec db (insertVideo db v) with
      | mk ok mid =>
          rw [hexec] at h
          cases ok with
          | false =>
              exact .goto (q := .dead .inserting) (m := mid) (by simp [step, inputAt, hexec]) h
          | true =>
              refine .goto (q := .ingest attempt vs fetched (inserted + 1)) (m := mid)
                (by simp [step, inputAt, hexec]) ?_
              exact ih mid (inserted + 1) h

private theorem runsTo_ingest (attempt : Nat) (videos : List Video) (db : Db) :
    RunsTo env job (.ingest attempt videos (Int32.ofNat videos.length) 0) db
      (ingest env job videos db).exit (ingest env job videos db).db := by
  refine runsTo_insertLoop attempt _ videos db 0 ?_
  unfold ingest
  rcases insertLoop env videos db 0 with ⟨ok, mid, n⟩
  cases ok with
  | false => exact runsTo_giveUp .inserting mid
  | true => exact .returned rfl

private theorem runsTo_attemptLoop (left attempt : Nat) (hleft : left + attempt = maxAttempts + 1)
    (hpos : 0 < left) (db : Db) :
    RunsTo env job (.fetch attempt) db (attemptLoop env job left attempt db).exit
      (attemptLoop env job left attempt db).db := by
  induction left generalizing attempt db with
  | zero => omega
  | succ left ih =>
      simp only [attemptLoop, Env.fetch]
      cases hfetch : fetchTrending env.client (env.get attempt) (env.fetchClock attempt)
          job.req job.id with
      | panicked => exact .panicked (by simp [step, inputAt, hfetch])
      | returned result =>
          cases result with
          | ok videos =>
              exact .goto (by simp only [step, inputAt, hfetch]) (runsTo_ingest attempt videos db)
          | error e =>
              refine .goto (q := .retry attempt) (m := db) (by simp [step, inputAt, hfetch]) ?_
              cases hexec : (env.retrying attempt).exec db (some (updateJobRetrying db job.id
                  fetchErrorMessage (Int32.ofNat attempt)
                  ((env.retryClock attempt).addSeconds (backoff attempt)))) with
              | mk ok mid =>
                  cases ok with
                  | false =>
                      exact .goto (by simp [step, inputAt, hexec]) (runsTo_giveUp .retrying mid)
                  | true =>
                      refine .goto (q := .sleep attempt) (m := mid)
                        (by simp [step, inputAt, hexec]) ?_
                      by_cases hlast : left = 0
                      · subst hlast
                        have hnot : ¬ attempt + 1 < maxAttempts + 1 := by omega
                        exact .goto (by simp only [step, if_neg hnot])
                          (runsTo_giveUp .exhausted mid)
                      · have hmore : attempt + 1 < maxAttempts + 1 := by omega
                        exact .goto (by simp only [step, if_pos hmore])
                          (ih (attempt + 1) (by omega) (by omega) mid)

private theorem runsTo_processJob (db : Db) :
    RunsTo env job .start db (processJob env db job).exit (processJob env db job).db := by
  unfold processJob
  cases hexec : env.started.exec db (some (updateJobStarted db job.id env.startedAt)) with
  | mk ok mid =>
      cases ok with
      | false => exact .goto (by simp [step, inputAt, hexec]) (runsTo_giveUp .started mid)
      | true =>
          exact .goto (by simp [step, inputAt, hexec])
            (runsTo_attemptLoop maxAttempts 1 rfl (by decide) mid)

theorem runsTo_start_iff {db last : Db} {exit : Exit} :
    RunsTo env job .start db exit last ↔
      exit = (processJob env db job).exit ∧ last = (processJob env db job).db := by
  constructor
  · exact fun h => h.unique (runsTo_processJob db)
  · rintro ⟨rfl, rfl⟩
    exact runsTo_processJob db

end Agreement

end TrendingPipeline.Worker.Machine
