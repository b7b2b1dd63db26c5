/- Unit: TrendingPipeline/Worker/Effects
   source: backend/worker/worker.go
   digest: Every step of processJob by its outcome, and the rows it leaves alone. -/

import TrendingPipeline.Worker.Machine

set_option autoImplicit false
set_option relaxedAutoImplicit false

namespace TrendingPipeline.Worker.Effects

open TrendingPipeline.Store.Tables (Db JobProgress JobRow JobsTable)
open TrendingPipeline.Store.Statements
open TrendingPipeline.Worker.ProcessJob
open TrendingPipeline.Worker.Machine (Input Next Point step)
open TrendingPipeline.Youtube.FetchTrending (FetchError Video fetchTrending fetchTrending_ok
  fetchTrending_panicked_iff)

abbrev startedNow (inp : Input) : JobProgress → JobProgress := started (inp.clock 0)

abbrev retryingNow (inp : Input) (attempt : Nat) : JobProgress → JobProgress :=
  retrying fetchErrorMessage (Int32.ofNat attempt) ((inp.clock 0).addSeconds (backoff attempt))

abbrev completedNow (inp : Input) (videosFetched videosInserted : Int32) :
    JobProgress → JobProgress :=
  completed (inp.clock 0) videosFetched videosInserted

/-- A failed statement left the tables alone, or it took effect all the same. -/
def AfterFailure (f : Fault) (db db' : Db) (effect : Option Db) : Prop :=
  db' = db ∨ f = .applied ∧ effect = some db'

/-- The steps of processJob on a job, one constructor for each outcome. -/
inductive Steps (job : Job) (inp : Input) (db : Db) : Point → Next → Db → Prop
  | started : inp.fault = .none →
      Steps job inp db .start (.goto (.fetch 1)) (updateJob db job.id (startedNow inp))
  | startFailed (db' : Db) : inp.fault ≠ .none →
      AfterFailure inp.fault db db' (some (updateJob db job.id (startedNow inp))) →
      Steps job inp db .start (.goto (.dead .started)) db'
  | panicked (attempt : Nat) : job.req.maxResults.toInt < 0 →
      Steps job inp db (.fetch attempt) .panicked db
  | fetchFailed (attempt : Nat) (e : FetchError) :
      fetchTrending inp.client inp.get inp.clock job.req job.id = .returned (.error e) →
      Steps job inp db (.fetch attempt) (.goto (.retry attempt)) db
  | fetched (attempt : Nat) (videos : List Video) :
      fetchTrending inp.client inp.get inp.clock job.req job.id = .returned (.ok videos) →
      Steps job inp db (.fetch attempt)
        (.goto (.ingest attempt videos (Int32.ofNat videos.length) 0)) db
  | retried (attempt : Nat) : inp.fault = .none →
      Steps job inp db (.retry attempt) (.goto (.sleep attempt))
        (updateJob db job.id (retryingNow inp attempt))
  | retryFailed (attempt : Nat) (db' : Db) : inp.fault ≠ .none →
      AfterFailure inp.fault db db' (some (updateJob db job.id (retryingNow inp attempt))) →
      Steps job inp db (.retry attempt) (.goto (.dead .retrying)) db'
  | slept (attempt : Nat) : attempt < maxAttempts →
      Steps job inp db (.sleep attempt) (.goto (.fetch (attempt + 1))) db
  | exhausted (attempt : Nat) : maxAttempts ≤ attempt →
      Steps job inp db (.sleep attempt) (.goto (.dead .exhausted)) db
  | inserted (attempt : Nat) (v : Video) (vs : List Video) (fetched count : Int32) (db' : Db) :
      inp.fault = .none → insertVideo db v = some db' →
      Steps job inp db (.ingest attempt (v :: vs) fetched count)
        (.goto (.ingest attempt vs fetched (count + 1))) db'
  | insertFailed (attempt : Nat) (v : Video) (vs : List Video) (fetched count : Int32)
      (db' : Db) : AfterFailure inp.fault db db' (insertVideo db v) →
      Steps job inp db (.ingest attempt (v :: vs) fetched count) (.goto (.dead .inserting)) db'
  | completed (attempt : Nat) (fetched count : Int32) : inp.fault ≠ .lost →
      Steps job inp db (.ingest attempt [] fetched count) .returned
        (updateJob db job.id (completedNow inp fetched count))
  | completionLost (attempt : Nat) (fetched count : Int32) : inp.fault = .lost →
      Steps job inp db (.ingest attempt [] fetched count) .returned db
  | died (reason : DeadReason) : inp.fault ≠ .lost →
      Steps job inp db (.dead reason) .returned (updateJob db job.id (dead reason.message))
  | deathLost (reason : DeadReason) : inp.fault = .lost →
      Steps job inp db (.dead reason) .returned db

private theorem exec_checked (f : Fault) (db g : Db) :
    (f = .none ∧ f.exec db (some g) = (true, g)) ∨
      ∃ db', f ≠ .none ∧ AfterFailure f db db' (some g) ∧ f.exec db (some g) = (false, db') := by
  cases f with
  | none => exact .inl ⟨rfl, rfl⟩
  | lost => exact .inr ⟨db, by decide, .inl rfl, rfl⟩
  | applied => exact .inr ⟨g, by decide, .inr ⟨rfl, rfl⟩, rfl⟩

private theorem exec_unchecked (f : Fault) (db g : Db) :
    (f ≠ .lost ∧ (f.exec db (some g)).2 = g) ∨ (f = .lost ∧ (f.exec db (some g)).2 = db) := by
  cases f with
  | none => exact .inl ⟨by decide, rfl⟩
  | lost => exact .inr ⟨rfl, rfl⟩
  | applied => exact .inl ⟨by decide, rfl⟩

theorem steps_step (job : Job) (inp : Input) (db : Db) (p : Point) :
    Steps job inp db p (step job inp db p).1 (step job inp db p).2 := by
  cases p with
  | start =>
      simp only [step, updateJobStarted]
      rcases exec_checked inp.fault db (updateJob db job.id (startedNow inp)) with
        ⟨hf, h⟩ | ⟨db', hf, hafter, h⟩
      · rw [h]
        exact .started hf
      · rw [h]
        exact .startFailed db' hf hafter
  | fetch attempt =>
      simp only [step]
      cases hfetch : fetchTrending inp.client inp.get inp.clock job.req job.id with
      | panicked => exact .panicked attempt (fetchTrending_panicked_iff.mp hfetch)
      | returned result =>
          cases result with
          | error e => exact .fetchFailed attempt e hfetch
          | ok videos => exact .fetched attempt videos hfetch
  | retry attempt =>
      simp only [step, updateJobRetrying]
      rcases exec_checked inp.fault db (updateJob db job.id (retryingNow inp attempt)) with
        ⟨hf, h⟩ | ⟨db', hf, hafter, h⟩
      · rw [h]
        exact .retried attempt hf
      · rw [h]
        exact .retryFailed attempt db' hf hafter
  | sleep attempt =>
      simp only [step]
      split
      · exact .slept attempt (by omega)
      · exact .exhausted attempt (by omega)
  | ingest attempt todo fetched count =>
      cases todo with
      | cons v vs =>
          simp only [step]
          cases hexec : inp.fault.exec db (insertVideo db v) with
          | mk ok db' =>
              cases ok with
              | true =>
                  obtain ⟨hf, heffect⟩ := Fault.exec_ok hexec
                  exact .inserted attempt v vs fetched count db' hf heffect
              | false =>
                  exact .insertFailed attempt v vs fetched count db' (Fault.exec_failed hexec)
      | nil =>
          simp only [step, updateJobCompleted]
          rcases exec_unchecked inp.fault db
            (updateJob db job.id (completedNow inp fetched count)) with ⟨hf, h⟩ | ⟨hf, h⟩
          · rw [h]
            exact .completed attempt fetched count hf
          · rw [h]
            exact .completionLost attempt fetched count hf
  | dead reason =>
      simp only [step, updateJobDead]
      rcases exec_unchecked inp.fault db (updateJob db job.id (dead reason.message)) with
        ⟨hf, h⟩ | ⟨hf, h⟩
      · rw [h]
        exact .died reason hf
      · rw [h]
        exact .deathLost reason hf

variable {job : Job} {inp : Input} {db db' : Db} {p : Point} {next : Next}

theorem Steps.of_panicked (h : Steps job inp db p .panicked db') :
    ∃ attempt, p = .fetch attempt ∧ job.req.maxResults.toInt < 0 := by
  cases h with
  | panicked attempt hneg => exact ⟨attempt, rfl, hneg⟩

/-- A step updates the row of its job, or inserts a video, or leaves the tables alone. -/
inductive Touches (job : Job) (db db' : Db) : Prop
  | nothing : db' = db → Touches job db db'
  | row (g : JobProgress → JobProgress) : db' = updateJob db job.id g → Touches job db db'
  | video (v : Video) : insertVideo db v = some db' → Touches job db db'

theorem AfterFailure.clean {f : Fault} {effect : Option Db} (h : AfterFailure f db db' effect)
    (hclean : f ≠ .applied) : db' = db := by
  rcases h with h | ⟨hf, -⟩
  · exact h
  · exact absurd hf hclean

theorem AfterFailure.videos_of_row {f : Fault} {id : String} {g : JobProgress → JobProgress}
    (h : AfterFailure f db db' (some (updateJob db id g))) : db'.videos = db.videos := by
  rcases h with rfl | ⟨-, heffect⟩
  · rfl
  · obtain rfl := Option.some.inj heffect
    rfl

theorem AfterFailure.jobs_of_video {f : Fault} {v : Video}
    (h : AfterFailure f db db' (insertVideo db v)) : db'.jobs = db.jobs := by
  rcases h with rfl | ⟨-, heffect⟩
  · rfl
  · exact insertVideo_jobs heffect

private theorem AfterFailure.touches_row {f : Fault} {g : JobProgress → JobProgress}
    (h : AfterFailure f db db' (some (updateJob db job.id g))) : Touches job db db' := by
  rcases h with rfl | ⟨-, h⟩
  · exact .nothing rfl
  · exact .row g (Option.some.inj h).symm

theorem Steps.touches (h : Steps job inp db p next db') : Touches job db db' := by
  cases h with
  | started => exact .row _ rfl
  | startFailed _ _ hafter => exact hafter.touches_row
  | panicked => exact .nothing rfl
  | fetchFailed => exact .nothing rfl
  | fetched => exact .nothing rfl
  | retried => exact .row _ rfl
  | retryFailed _ _ _ hafter => exact hafter.touches_row
  | slept => exact .nothing rfl
  | exhausted => exact .nothing rfl
  | inserted _ v _ _ _ _ _ heffect => exact .video v heffect
  | insertFailed _ v _ _ _ _ hafter =>
      rcases hafter with rfl | ⟨-, heffect⟩
      · exact .nothing rfl
      · exact .video v heffect
  | completed => exact .row _ rfl
  | completionLost => exact .nothing rfl
  | died => exact .row _ rfl
  | deathLost => exact .nothing rfl

theorem Steps.ids (h : Steps job inp db p next db') :
    db'.jobs.rows.map (·.jobId) = db.jobs.rows.map (·.jobId) := by
  cases h.touches with
  | nothing h => rw [h]
  | row g h =>
      rw [h]
      exact JobsTable.ids_update db.jobs job.id g
  | video v h => rw [insertVideo_jobs h]

theorem Steps.byId_of_ne (h : Steps job inp db p next db') {id : String} (hne : id ≠ job.id) :
    db'.jobs.byId id = db.jobs.byId id := by
  cases h.touches with
  | nothing h => rw [h]
  | row g h =>
      rw [h]
      exact byId_updateJob_of_ne g hne
  | video v h => rw [insertVideo_jobs h]

end TrendingPipeline.Worker.Effects
