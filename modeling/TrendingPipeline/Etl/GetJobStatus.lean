/- Unit: TrendingPipeline/Etl/GetJobStatus
   source: backend/db/db.go, backend/etl/server.go
   digest: A row of `jobs` scanned by position, and what it says about the writes to it. -/

import TrendingPipeline.Etl.WatchJob
import TrendingPipeline.Store.GetVideos
import TrendingPipeline.Store.JobColumns

set_option autoImplicit false
set_option relaxedAutoImplicit false

namespace TrendingPipeline.Etl.GetJobStatus

open TrendingPipeline.Base.Calendar (Time)
open TrendingPipeline.Etl.WatchJob (columnTimestamp stateOf stringToJobState)
open TrendingPipeline.Proto.Messages (JobRequest JobState JobStatus Timestamp)
open TrendingPipeline.Store.Dml
open TrendingPipeline.Store.GetVideos (timeOfMicros timeOfMicros_micros)
open TrendingPipeline.Store.JobColumns
open TrendingPipeline.Store.Queries (micros)
open TrendingPipeline.Store.Statements (newRow)
open TrendingPipeline.Store.Tables (JobProgress JobRow JobsTable RowState)

variable {J : Type}

/-- Into a `string`. -/
def scanString : Datum J → Option String
  | .text s => some s
  | _ => none

/-- Into an `int32`. -/
def scanInt32 : Datum J → Option Int32
  | .integer n => some n
  | _ => none

/-- Into a `time.Time`. -/
def scanTime : Datum J → Option Time
  | .instant t => some (timeOfMicros t)
  | _ => none

/-- Into a `sql.NullString` or a `sql.NullTime`. -/
def scanNull {α : Type} (scan : Datum J → Option α) : Datum J → Option (Option α)
  | .null => some none
  | x => (scan x).map some

/-- Into a `map[string]string`. -/
def scanMap (json : MetadataJson J) : Datum J → Option Metadata
  | .jsonb value => json.scan value
  | _ => none

def scanJobStatus (json : MetadataJson J) : Row J → Option JobStatus
  | [c1, c2, c3, c4, c5, c6, c7, c8, c9, c10, c11, c12, c13, c14, c15, c16] => do
      let jobId ← scanString c1
      let _idempotencyKey ← scanString c2
      let state ← scanString c3
      let region ← scanString c4
      let categoryId ← scanInt32 c5
      let _maxResults ← scanInt32 c6
      let attempt ← scanInt32 c7
      let maxAttempts ← scanInt32 c8
      let videosFetched ← scanInt32 c9
      let videosInserted ← scanInt32 c10
      let errorMessage ← scanNull scanString c11
      let nextRetryAt ← scanNull scanTime c12
      let createdAt ← scanTime c13
      let startedAt ← scanNull scanTime c14
      let completedAt ← scanNull scanTime c15
      let metadata ← scanMap json c16
      return {
        jobId := jobId
        state := stringToJobState state
        region := region
        categoryId := categoryId
        attempt := attempt
        maxAttempts := maxAttempts
        videosFetched := videosFetched
        videosInserted := videosInserted
        errorMessage := errorMessage.getD ""
        nextRetryAt := nextRetryAt.map Timestamp.ofTime
        createdAt := some (Timestamp.ofTime createdAt)
        startedAt := startedAt.map Timestamp.ofTime
        completedAt := completedAt.map Timestamp.ofTime
        metadata := metadata }
  | _ => none

/-- `GetJobByID`, and with it `GetJobStatus`; `none` is an error. -/
def getJobByID [DecidableEq J] (json : MetadataJson J) (t : Table J) (id : String) :
    Option JobStatus :=
  (select createJobs .jobId id t).bind (scanJobStatus json)

private theorem scanNull_optText (s : Option String) :
    scanNull (J := J) scanString (optText s) = some s := by
  cases s <;> rfl

private theorem scanNull_optInstant (t : Option Time) :
    scanNull (J := J) scanTime (optInstant t) = some (t.map fun t => timeOfMicros (micros t)) := by
  cases t <;> rfl

private theorem map_ofTime (t : Option Time) :
    (t.map fun t => timeOfMicros (micros t)).map Timestamp.ofTime = t.map columnTimestamp := by
  cases t with
  | none => rfl
  | some t => simp [columnTimestamp, timeOfMicros_micros]

private theorem scanJobStatus_represents {json : MetadataJson J} {row : Row J} {r : JobRow}
    (h : Represents json row r) :
    ∃ m, SameMap m r.metadata ∧
      scanJobStatus json row = some { Etl.WatchJob.scanJobStatus r with metadata := m } := by
  obtain ⟨value, m, hscan, hsame, rfl⟩ := h
  refine ⟨m, hsame, ?_⟩
  simp only [columnsOf, scanJobStatus, scanString, scanInt32, scanTime, scanMap,
    scanNull_optText, scanNull_optInstant, hscan, Option.bind_eq_bind, Option.bind_some,
    Option.pure_def, map_ofTime, Etl.WatchJob.scanJobStatus, stateOf]
  rw [timeOfMicros_micros]
  rfl

private theorem getJobByID_represents [DecidableEq J] {json : MetadataJson J} {t : Table J}
    {jobs : JobsTable} (h : RepresentsTable json t jobs) {id : String} {r : JobRow}
    (hr : jobs.byId id = some r) :
    ∃ m, SameMap m r.metadata ∧
      getJobByID json t id = some { Etl.WatchJob.scanJobStatus r with metadata := m } := by
  obtain ⟨row, hselect, hrow⟩ := select_represents h hr
  obtain ⟨m, hsame, hscan⟩ := scanJobStatus_represents hrow
  exact ⟨m, hsame, by rw [getJobByID, hselect, Option.bind_some, hscan]⟩

/-- The state whose text a write puts into `state`. -/
def stateWritten : Write → Option JobState
  | .insertJob _ _ _ => none
  | .updateJobStarted _ _ => some .running
  | .updateJobCompleted _ _ _ _ => some .done
  | .updateJobRetrying _ _ _ _ => some .retrying
  | .updateJobDead _ _ => some .dead

def attempt : Write → Option Int32
  | .updateJobRetrying _ _ attempt _ => some attempt
  | _ => none

def videosFetched : Write → Option Int32
  | .updateJobCompleted _ _ videosFetched _ => some videosFetched
  | _ => none

def videosInserted : Write → Option Int32
  | .updateJobCompleted _ _ _ videosInserted => some videosInserted
  | _ => none

def errorMessage : Write → Option (Option String)
  | .updateJobRetrying _ errorMessage _ _ | .updateJobDead _ errorMessage => some errorMessage
  | _ => none

def nextRetryAt : Write → Option (Option Time)
  | .updateJobRetrying _ _ _ nextRetryAt => some nextRetryAt
  | .updateJobCompleted _ _ _ _ | .updateJobDead _ _ => some none
  | _ => none

def startedAt : Write → Option (Option Time)
  | .updateJobStarted _ startedAt => some (some startedAt)
  | _ => none

def completedAt : Write → Option (Option Time)
  | .updateJobCompleted _ completedAt _ _ => some (some completedAt)
  | _ => none

/-- What the last write to a column put there, and before any the initial value. -/
def lastWritten {β : Type} (wrote : Write → Option β) (initial : β) (log : List Write) : β :=
  log.foldl (fun b w => (wrote w).getD b) initial

/-- A timestamp is the instant written to a column, to the microsecond. -/
def Shows (ts : Timestamp) (written : Time) : Prop :=
  ts.asTime.sec = written.sec ∧ ts.asTime.nsec = written.nsec / 1000 * 1000

private theorem shows_columnTimestamp (t : Time) : Shows (columnTimestamp t) t := by
  rw [columnTimestamp, Shows, Timestamp.asTime_ofTime]
  exact ⟨rfl, rfl⟩

private theorem shows_column {ts : Option Timestamp} {written : Option Time}
    (h : ts = written.map columnTimestamp) : Option.Rel Shows ts written := by
  subst h
  cases written with
  | none => exact .none
  | some t => exact .some (shows_columnTimestamp t)

/-- What a status should say after an INSERT and the later writes to the job. -/
structure Faithful (now : Time) (jobId : String) (req : JobRequest) (own : List Write)
    (status : JobStatus) : Prop where
  jobId : status.jobId = jobId
  region : status.region = req.region
  categoryId : status.categoryId = req.categoryId
  metadata : SameMap status.metadata (req.metadata.getD [])
  state : status.state = lastWritten stateWritten .queued own
  known : status.state ≠ .unspecified
  attempt : status.attempt = lastWritten attempt 0 own
  maxAttempts : status.maxAttempts = 3
  videosFetched : status.videosFetched = lastWritten videosFetched 0 own
  videosInserted : status.videosInserted = lastWritten videosInserted 0 own
  errorMessage : status.errorMessage = (lastWritten errorMessage none own).getD ""
  nextRetryAt : Option.Rel Shows status.nextRetryAt (lastWritten nextRetryAt none own)
  createdAt : Option.Rel Shows status.createdAt (some now)
  startedAt : Option.Rel Shows status.startedAt (lastWritten startedAt none own)
  completedAt : Option.Rel Shows status.completedAt (lastWritten completedAt none own)

private theorem byId_apply {jobs : JobsTable} {id : String} {r : JobRow}
    (hr : jobs.byId id = some r)
    (w : Write) :
    (w.apply jobs).byId id = some (if w.jobId = id then r.apply w.progress else r) := by
  have hupdate : ∀ g : JobProgress → JobProgress, (jobs.update w.jobId g).byId id =
      some (if w.jobId = id then r.apply g else r) := by
    intro g
    rw [JobsTable.byId_update, hr, Option.map_some, (JobsTable.byId_eq_some_iff.mp hr).2]
    simp only [eq_comm]
  cases w with
  | insertJob now jobId req =>
      rw [Write.apply]
      cases hinsert : jobs.insert (newRow now jobId req) with
      | none => split <;> exact hr
      | some jobs' =>
          have hnew := (JobsTable.insert_isSome_iff.mp (Option.isSome_of_eq_some hinsert)).1
          have hne : jobId ≠ id := by
            rintro rfl
            rw [show (newRow now jobId req).jobId = jobId from rfl, hr] at hnew
            cases hnew
          rw [Option.getD_some, JobsTable.byId_insert hinsert]
          exact (if_neg hne).trans (hr.trans (congrArg some (if_neg hne).symm))
  | updateJobStarted jobId startedAt => exact hupdate _
  | updateJobCompleted jobId completedAt fetched inserted => exact hupdate _
  | updateJobRetrying jobId errorMessage attempt nextRetryAt => exact hupdate _
  | updateJobDead jobId errorMessage => exact hupdate _

def ownWrites (id : String) (log : List Write) : List Write := log.filter (·.jobId = id)

private theorem byId_applyAll {jobs : JobsTable} {id : String} {r : JobRow}
    (hr : jobs.byId id = some r)
    (log : List Write) :
    (log.foldl Write.apply jobs).byId id =
      some (r.apply fun p => (ownWrites id log).foldl (fun p w => w.progress p) p) := by
  induction log generalizing jobs r with
  | nil => exact hr
  | cons w log ih =>
      rw [List.foldl_cons, ih (byId_apply hr w), ownWrites, ownWrites]
      by_cases hid : w.jobId = id
      · rw [if_pos hid, List.filter_cons_of_pos (by simpa using hid)]
        rfl
      · rw [if_neg hid, List.filter_cons_of_neg (by simpa using hid)]

private theorem progress_eq_lastWritten {β : Type} (get : JobProgress → β)
    (wrote : Write → Option β)
    (hwrote : ∀ w p, get (w.progress p) = (wrote w).getD (get p)) (log : List Write)
    (p : JobProgress) :
    get (log.foldl (fun p w => w.progress p) p) = lastWritten wrote (get p) log := by
  induction log generalizing p with
  | nil => rfl
  | cons w log ih =>
      rw [List.foldl_cons, ih, hwrote]
      rfl

private theorem stateOf_ne_unspecified (state : RowState) :
    stringToJobState state.text ≠ .unspecified := by
  cases state <;> decide

variable [DecidableEq J] {json : MetadataJson J}

theorem execAll_represents (hjson : json.Exact) {t : Table J} {jobs : JobsTable}
    (h : RepresentsTable json t jobs) (log : List Write) :
    RepresentsTable json (execAll json t log) (log.foldl Write.apply jobs) := by
  induction log generalizing t jobs with
  | nil => exact h
  | cons w log ih => exact ih (exec_represents hjson w h)

theorem faithful_of_insert (hjson : json.Exact) {before after : List Write} {now : Time}
    {jobId : String} {req : JobRequest} {t : Table J}
    (hinsert : (Write.insertJob now jobId req).exec json (execAll json [] before) = some t) :
    ∃ status, getJobByID json (execAll json t after) jobId = some status ∧
      Faithful now jobId req (ownWrites jobId after) status := by
  have hbefore := execAll_represents hjson .empty before
  rcases exec_insertJob hjson hbefore now jobId req with
    ⟨t', jobs', hexec, hrows, hrepr⟩ | ⟨hexec, _⟩
  · obtain rfl := Option.some.inj (hinsert.symm.trans hexec)
    have hrow : jobs'.byId jobId = some (newRow now jobId req) := by
      rw [JobsTable.byId_insert hrows]
      exact if_pos rfl
    obtain ⟨m, hsame, hget⟩ :=
      getJobByID_represents (execAll_represents hjson hrepr after) (byId_applyAll hrow after)
    refine ⟨_, hget, ?_⟩
    have hcolumn {β : Type} (get : JobProgress → β) (wrote : Write → Option β)
        (hwrote : ∀ w p, get (w.progress p) = (wrote w).getD (get p)) :=
      progress_eq_lastWritten get wrote hwrote (ownWrites jobId after) {}
    constructor
    · rfl
    · rfl
    · rfl
    · exact hsame
    · exact hcolumn (fun p => stringToJobState p.state.text) stateWritten
        fun w p => by cases w <;> rfl
    · exact stateOf_ne_unspecified _
    · exact hcolumn (·.attempt) attempt fun w p => by cases w <;> rfl
    · rfl
    · exact hcolumn (·.videosFetched) videosFetched fun w p => by cases w <;> rfl
    · exact hcolumn (·.videosInserted) videosInserted fun w p => by cases w <;> rfl
    · exact congrArg (·.getD "") (hcolumn (·.errorMessage) errorMessage
        fun w p => by cases w <;> rfl)
    · exact shows_column (congrArg (·.map columnTimestamp) (hcolumn (·.nextRetryAt) nextRetryAt
        fun w p => by cases w <;> rfl))
    · exact .some (shows_columnTimestamp now)
    · exact shows_column (congrArg (·.map columnTimestamp) (hcolumn (·.startedAt) startedAt
        fun w p => by cases w <;> rfl))
    · exact shows_column (congrArg (·.map columnTimestamp) (hcolumn (·.completedAt) completedAt
        fun w p => by cases w <;> rfl))
  · rw [hinsert] at hexec
    cases hexec

theorem getJobByID_exec_of_ne (hjson : json.Exact) {t t' : Table J} {w : Write} {id : String}
    (h : w.exec json t = some t') (hid : id ≠ w.jobId) :
    getJobByID json t' id = getJobByID json t id := by
  unfold getJobByID
  refine congrArg (Option.bind · (scanJobStatus json)) ?_
  by_cases hw : ∀ now jobId req, w ≠ .insertJob now jobId req
  · obtain ⟨set, args, hexec, hkey, _⟩ := exec_update json w hw
    rw [hexec] at h
    exact select_update h hkey hid
  · push Not at hw
    obtain ⟨now, jobId, req, rfl⟩ := hw
    obtain ⟨value, _, hvalue, _, _⟩ := hjson (req.metadata.getD [])
    refine select_insert h (insertRow_eq hvalue) ?_
    intro hcell
    have hsame : some (Datum.text jobId) = some (Datum.text id) := hcell
    have hne : id ≠ jobId := hid
    exact hne (by simpa using hsame.symm)

end TrendingPipeline.Etl.GetJobStatus
