/- Unit: TrendingPipeline/Store/Statements
   source: backend/db/db.go
   digest: The SQL statements of the job side, what each changes and what it leaves alone. -/

import TrendingPipeline.Store.Tables

set_option autoImplicit false
set_option relaxedAutoImplicit false

namespace TrendingPipeline.Store.Statements

open TrendingPipeline.Base.Calendar (Time)
open TrendingPipeline.Proto.Messages (JobRequest)
open TrendingPipeline.Store.Tables (Db JobProgress JobRow JobsTable VideosTable)
open TrendingPipeline.Youtube.FetchTrending (Video)

/-- What goes wrong with one statement: nothing, an error without effect, or an
error reported although the effect took place. -/
inductive Fault
  | none
  | lost
  | applied
  deriving DecidableEq

/-- Execute a statement whose result the schema gives as `effect`, `none` being a
rejected one. The first component is `err == nil`. -/
def Fault.exec (f : Fault) (db : Db) (effect : Option Db) : Bool × Db :=
  match f, effect with
  | .none, some db' => (true, db')
  | .applied, some db' => (false, db')
  | .lost, some _ => (false, db)
  | _, .none => (false, db)

@[simp] theorem Fault.exec_none_some (db db' : Db) : Fault.none.exec db (some db') = (true, db') :=
  rfl

@[simp] theorem Fault.exec_rejected (f : Fault) (db : Db) : f.exec db .none = (false, db) := by
  cases f <;> rfl

theorem Fault.exec_ok {f : Fault} {db db' : Db} {effect : Option Db}
    (h : f.exec db effect = (true, db')) : f = .none ∧ effect = some db' := by
  cases f <;> cases effect <;> simp_all [Fault.exec]

/-- A statement that fails changes nothing unless its effect took place all the same. -/
theorem Fault.exec_failed {f : Fault} {db db' : Db} {effect : Option Db}
    (h : f.exec db effect = (false, db')) :
    db' = db ∨ f = .applied ∧ effect = some db' := by
  cases f <;> cases effect <;> simp_all [Fault.exec, eq_comm]

/-- The row `InsertJob` writes; a nil metadata map is stored as the empty one. -/
def newRow (now : Time) (jobId : String) (req : JobRequest) : JobRow where
  jobId := jobId
  idempotencyKey := req.idempotencyKey
  region := req.region
  categoryId := req.categoryId
  maxResults := req.maxResults
  createdAt := now
  metadata := req.metadata.getD []

/-- `InsertJob`, with the id `uuid.New` gave and the time `NOW()` gave. -/
def insertJob (db : Db) (now : Time) (jobId : String) (req : JobRequest) : Option Db :=
  match h : db.jobs.insert (newRow now jobId req) with
  | none => none
  | some jobs =>
      some
        { jobs := jobs
          videos := db.videos
          references := by
            intro v hv
            rw [JobsTable.rows_insert h]
            exact List.mem_cons_of_mem _ (db.references v hv) }

/-- `GetJobByID`. -/
def getJobByID (db : Db) (id : String) : Option JobRow := db.jobs.byId id

/-- `GetJobByIdempotencyKey`; `none` is `pgx.ErrNoRows`. -/
def getJobByIdempotencyKey (db : Db) (key : String) : Option JobRow := db.jobs.byKey key

/-- An UPDATE of `jobs` by job id. -/
def updateJob (db : Db) (jobId : String) (g : JobProgress → JobProgress) : Db where
  jobs := db.jobs.update jobId g
  videos := db.videos
  references := by
    intro v hv
    rw [JobsTable.ids_update]
    exact db.references v hv

def started (startedAt : Time) (p : JobProgress) : JobProgress :=
  { p with state := .running, startedAt := some startedAt }

def completed (completedAt : Time) (videosFetched videosInserted : Int32) (p : JobProgress) :
    JobProgress :=
  { p with state := .done, completedAt := some completedAt, videosFetched := videosFetched,
           videosInserted := videosInserted, nextRetryAt := none }

def retrying (errorMessage : String) (attempt : Int32) (nextRetryAt : Time) (p : JobProgress) :
    JobProgress :=
  { p with state := .retrying, errorMessage := some errorMessage, attempt := attempt,
           nextRetryAt := some nextRetryAt }

def dead (errorMessage : String) (p : JobProgress) : JobProgress :=
  { p with state := .dead, errorMessage := some errorMessage, nextRetryAt := none }

/-- `UpdateJobStarted`. -/
def updateJobStarted (db : Db) (jobId : String) (startedAt : Time) : Db :=
  updateJob db jobId (started startedAt)

/-- `UpdateJobCompleted`. -/
def updateJobCompleted (db : Db) (jobId : String) (completedAt : Time)
    (videosFetched videosInserted : Int32) : Db :=
  updateJob db jobId (completed completedAt videosFetched videosInserted)

/-- `UpdateJobRetrying`. -/
def updateJobRetrying (db : Db) (jobId errorMessage : String) (attempt : Int32)
    (nextRetryAt : Time) : Db :=
  updateJob db jobId (retrying errorMessage attempt nextRetryAt)

/-- `UpdateJobDead`. -/
def updateJobDead (db : Db) (jobId errorMessage : String) : Db :=
  updateJob db jobId (dead errorMessage)

/-- `InsertVideo`: besides the constraints of the table itself, the job must exist. -/
def insertVideo (db : Db) (v : Video) : Option Db :=
  if hjob : v.jobId ∈ db.jobs.rows.map (·.jobId) then
    match h : db.videos.insert v with
    | none => none
    | some videos =>
        some
          { jobs := db.jobs
            videos := videos
            references := by
              intro w hw
              rw [VideosTable.rows_insert h] at hw
              rcases List.mem_cons.mp hw with rfl | hw
              · exact hjob
              · exact db.references w hw }
  else none

variable {db db' : Db} {now : Time} {jobId : String} {req : JobRequest}

theorem insertJob_jobs (h : insertJob db now jobId req = some db') :
    db.jobs.insert (newRow now jobId req) = some db'.jobs := by
  unfold insertJob at h
  split at h
  · cases h
  · obtain rfl := Option.some.inj h
    assumption

theorem insertJob_videos (h : insertJob db now jobId req = some db') : db'.videos = db.videos := by
  unfold insertJob at h
  split at h
  · cases h
  · obtain rfl := Option.some.inj h
    rfl

theorem insertJob_isSome_iff : (insertJob db now jobId req).isSome ↔
    db.jobs.byId jobId = none ∧ db.jobs.byKey req.idempotencyKey = none := by
  have hinsert : (insertJob db now jobId req).isSome ↔
      (db.jobs.insert (newRow now jobId req)).isSome := by
    unfold insertJob
    split <;> simp_all
  rw [hinsert, JobsTable.insert_isSome_iff]
  rfl

theorem insertJob_ids (h : insertJob db now jobId req = some db') :
    db'.jobs.rows.map (·.jobId) = jobId :: db.jobs.rows.map (·.jobId) := by
  rw [JobsTable.rows_insert (insertJob_jobs h)]
  rfl

theorem insertJob_fresh (h : insertJob db now jobId req = some db') :
    jobId ∉ db.jobs.rows.map (·.jobId) := by
  have hnone := (insertJob_isSome_iff.mp (Option.isSome_of_eq_some h)).1
  intro hmem
  have hsome := JobsTable.byId_isSome_iff.mpr hmem
  rw [hnone] at hsome
  cases hsome

theorem byKey_of_refused (h : insertJob db now jobId req = none)
    (hid : db.jobs.byId jobId = none) :
    ∃ row, db.jobs.byKey req.idempotencyKey = some row := by
  rw [← Option.ne_none_iff_exists']
  intro hkey
  have hsome : (insertJob db now jobId req).isSome := insertJob_isSome_iff.mpr ⟨hid, hkey⟩
  rw [h] at hsome
  cases hsome

theorem byId_insertJob (h : insertJob db now jobId req = some db') (id : String) :
    db'.jobs.byId id = if jobId = id then some (newRow now jobId req) else db.jobs.byId id :=
  JobsTable.byId_insert (insertJob_jobs h) id

theorem byKey_insertJob (h : insertJob db now jobId req = some db') (key : String) :
    db'.jobs.byKey key =
      if req.idempotencyKey = key then some (newRow now jobId req) else db.jobs.byKey key :=
  JobsTable.byKey_insert (insertJob_jobs h) key

theorem byId_updateJob_self {r : JobRow} (g : JobProgress → JobProgress)
    (h : db.jobs.byId jobId = some r) :
    (updateJob db jobId g).jobs.byId jobId = some (r.apply g) :=
  JobsTable.byId_update_self g h

theorem byId_updateJob_of_ne {id : String} (g : JobProgress → JobProgress) (h : id ≠ jobId) :
    (updateJob db jobId g).jobs.byId id = db.jobs.byId id :=
  JobsTable.byId_update_of_ne g h

theorem byId_exec_updateJob {r : JobRow} (f : Fault) (g : JobProgress → JobProgress)
    (h : db.jobs.byId jobId = some r) :
    (f.exec db (some (updateJob db jobId g))).2.jobs.byId jobId =
      some (if f = .lost then r else r.apply g) := by
  cases f with
  | none => simpa [Fault.exec] using byId_updateJob_self g h
  | lost => simpa [Fault.exec] using h
  | applied => simpa [Fault.exec] using byId_updateJob_self g h

theorem videos_exec_updateJob (f : Fault) (g : JobProgress → JobProgress) :
    (f.exec db (some (updateJob db jobId g))).2.videos = db.videos := by
  cases f <;> rfl

theorem insertVideo_jobs {v : Video} (h : insertVideo db v = some db') : db'.jobs = db.jobs := by
  unfold insertVideo at h
  split at h
  · split at h
    · cases h
    · obtain rfl := Option.some.inj h
      rfl
  · cases h

theorem insertVideo_videos {v : Video} (h : insertVideo db v = some db') :
    db.videos.insert v = some db'.videos := by
  unfold insertVideo at h
  split at h
  · split at h
    · cases h
    · obtain rfl := Option.some.inj h
      assumption
  · cases h

theorem countOf_insertVideo {v : Video} (h : insertVideo db v = some db') (id : String) :
    db'.videos.countOf id = db.videos.countOf id + if v.jobId = id then 1 else 0 :=
  VideosTable.countOf_insert (insertVideo_videos h) id

end TrendingPipeline.Store.Statements
