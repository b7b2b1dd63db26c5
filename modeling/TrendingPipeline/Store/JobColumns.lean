/- Unit: TrendingPipeline/Store/JobColumns
   source: backend/db/migrations/001_create_jobs.up.sql, backend/db/db.go
   digest: The jobs table by its columns, and the statements that write them. -/

import TrendingPipeline.Store.Dml
import TrendingPipeline.Store.Statements

/-!
The table stands here as the migration and the statements have it, a list of values for each
row in the order of the columns. Every write keeps it the image of the table of records that
the rest of the development works on.
-/

set_option autoImplicit false
set_option relaxedAutoImplicit false

namespace TrendingPipeline.Store.JobColumns

open TrendingPipeline.Base.Calendar (Time)
open TrendingPipeline.Proto.Messages (JobRequest)
open TrendingPipeline.Store.Dml
open TrendingPipeline.Store.Queries (micros)
open TrendingPipeline.Store.Statements
open TrendingPipeline.Store.Tables (JobProgress JobRow JobsTable RowState)

inductive Column
  | jobId
  | idempotencyKey
  | state
  | region
  | categoryId
  | maxResults
  | attempt
  | maxAttempts
  | videosFetched
  | videosInserted
  | errorMessage
  | nextRetryAt
  | createdAt
  | startedAt
  | completedAt
  | metadata
  deriving DecidableEq

/-- `CREATE TABLE jobs`, in its order. -/
def createJobs : List (Definition Column) := [
  { column := .jobId, type := .text, notNull := true, unique := true },
  { column := .idempotencyKey, type := .text, notNull := true, unique := true },
  { column := .state, type := .text, notNull := true, default := .text "queued" },
  { column := .region, type := .text, notNull := true },
  { column := .categoryId, type := .integer, notNull := true, default := .integer 0 },
  { column := .maxResults, type := .integer, notNull := true, default := .integer 50 },
  { column := .attempt, type := .integer, notNull := true, default := .integer 0 },
  { column := .maxAttempts, type := .integer, notNull := true, default := .integer 3 },
  { column := .videosFetched, type := .integer, notNull := true, default := .integer 0 },
  { column := .videosInserted, type := .integer, notNull := true, default := .integer 0 },
  { column := .errorMessage, type := .text },
  { column := .nextRetryAt, type := .timestamptz },
  { column := .createdAt, type := .timestamptz, notNull := true, default := .now },
  { column := .startedAt, type := .timestamptz },
  { column := .completedAt, type := .timestamptz },
  { column := .metadata, type := .jsonb, notNull := true, default := .text "\x7b\x7d" }]

abbrev Metadata := List (String × String)

def SameMap (m m' : Metadata) : Prop := ∀ key, m.lookup key = m'.lookup key

/-- `json.Marshal` of a map, what a JSONB column makes of a text, and what Scan makes of
a JSONB value. -/
structure MetadataJson (J : Type) where
  marshal : Metadata → String
  input : String → Option J
  scan : J → Option Metadata

def MetadataJson.Exact {J : Type} (json : MetadataJson J) : Prop :=
  ∀ m, ∃ value m', json.input (json.marshal m) = some value ∧ json.scan value = some m' ∧
    SameMap m' m

/-- One call of db.go that writes to the table, with what it is given; for `InsertJob`
also the id of `uuid.New` and the time of `NOW()`. -/
inductive Write
  | insertJob (now : Time) (jobId : String) (req : JobRequest)
  | updateJobStarted (jobId : String) (startedAt : Time)
  | updateJobCompleted (jobId : String) (completedAt : Time)
      (videosFetched videosInserted : Int32)
  | updateJobRetrying (jobId errorMessage : String) (attempt : Int32)
      (nextRetryAt : Option Time)
  | updateJobDead (jobId errorMessage : String)
  deriving DecidableEq

def Write.jobId : Write → String
  | .insertJob _ jobId _ | .updateJobStarted jobId _ | .updateJobCompleted jobId _ _ _
  | .updateJobRetrying jobId _ _ _ | .updateJobDead jobId _ => jobId

section

variable {J : Type} [DecidableEq J] (json : MetadataJson J)

/-- `UPDATE jobs SET .. WHERE job_id = $n`; no SET list calls `NOW()`. -/
def updateJob (set : List (Column × Expr)) (n : ℕ) (args : List Arg) (t : Table J) :
    Option (Table J) :=
  match args[n - 1]? with
  | some (.string jobId) => update json.input createJobs Time.zero args set .jobId jobId t
  | _ => none

/-- The columns of the INSERT and its arguments. -/
def insertColumns : List (Column × Expr) :=
  [(.jobId, .arg 1), (.idempotencyKey, .arg 2), (.state, .arg 3), (.region, .arg 4),
    (.categoryId, .arg 5), (.maxResults, .arg 6), (.metadata, .arg 7)]

def insertArgs (jobId : String) (req : JobRequest) : List Arg :=
  [.string jobId, .string req.idempotencyKey, .string "queued", .string req.region,
    .int32 req.categoryId, .int32 req.maxResults, .string (json.marshal (req.metadata.getD []))]

/-- The table after a write; `none` is an error, and then the table stays. -/
def Write.exec (t : Table J) : Write → Option (Table J)
  | .insertJob now jobId req =>
      insert json.input createJobs now (insertArgs json jobId req) insertColumns t
  | .updateJobStarted jobId startedAt =>
      updateJob json [(.state, .arg 1), (.startedAt, .arg 2)] 3
        [.string "running", .time startedAt, .string jobId] t
  | .updateJobCompleted jobId completedAt videosFetched videosInserted =>
      updateJob json
        [(.state, .arg 1), (.completedAt, .arg 2), (.videosFetched, .arg 3),
          (.videosInserted, .arg 4), (.nextRetryAt, .null)] 5
        [.string "done", .time completedAt, .int32 videosFetched, .int32 videosInserted,
          .string jobId] t
  | .updateJobRetrying jobId errorMessage attempt nextRetryAt =>
      updateJob json
        [(.state, .arg 1), (.errorMessage, .arg 2), (.attempt, .arg 3), (.nextRetryAt, .arg 4)] 5
        [.string "retrying", .string errorMessage, .int32 attempt,
          nextRetryAt.elim .null .time, .string jobId] t
  | .updateJobDead jobId errorMessage =>
      updateJob json [(.state, .arg 1), (.errorMessage, .arg 2), (.nextRetryAt, .null)] 3
        [.string "dead", .string errorMessage, .string jobId] t

def execAll (t : Table J) (log : List Write) : Table J :=
  log.foldl (fun t w => (w.exec json t).getD t) t

end

def optText {J : Type} (s : Option String) : Datum J := s.elim .null .text

def optInstant {J : Type} (t : Option Time) : Datum J := t.elim .null fun t => .instant (micros t)

/-- The values of a row in the order of the table. -/
def columnsOf {J : Type} (r : JobRow) (value : J) : Row J := [
  .text r.jobId, .text r.idempotencyKey, .text r.state.text, .text r.region,
  .integer r.categoryId, .integer r.maxResults, .integer r.attempt, .integer r.maxAttempts,
  .integer r.videosFetched, .integer r.videosInserted, optText r.errorMessage,
  optInstant r.nextRetryAt, .instant (micros r.createdAt), optInstant r.startedAt,
  optInstant r.completedAt, .jsonb value]

/-- What an UPDATE does to the columns it writes. -/
def Write.progress : Write → JobProgress → JobProgress
  | .insertJob _ _ _, p => p
  | .updateJobStarted _ startedAt, p => started startedAt p
  | .updateJobCompleted _ completedAt videosFetched videosInserted, p =>
      completed completedAt videosFetched videosInserted p
  | .updateJobRetrying _ errorMessage attempt nextRetryAt, p =>
      { p with state := .retrying, errorMessage := some errorMessage, attempt := attempt,
               nextRetryAt := nextRetryAt }
  | .updateJobDead _ errorMessage, p => dead errorMessage p

def Write.apply (t : JobsTable) : Write → JobsTable
  | .insertJob now jobId req => (t.insert (newRow now jobId req)).getD t
  | w => t.update w.jobId w.progress

section

variable {J : Type} {json : MetadataJson J}

def Represents (json : MetadataJson J) (row : Row J) (r : JobRow) : Prop :=
  ∃ value m, json.scan value = some m ∧ SameMap m r.metadata ∧ row = columnsOf r value

/-- A table stands for the rows, one by one. -/
def RepresentsTable (json : MetadataJson J) (t : Table J) (jobs : JobsTable) : Prop :=
  List.Forall₂ (Represents json) t jobs.rows

theorem RepresentsTable.empty : RepresentsTable json [] .empty := .nil

private theorem Represents.cell_jobId {row : Row J} {r : JobRow} (h : Represents json row r) :
    cell createJobs .jobId row = some (.text r.jobId) := by
  obtain ⟨value, m, _, _, rfl⟩ := h
  rfl

private theorem Represents.cell_idempotencyKey {row : Row J} {r : JobRow}
    (h : Represents json row r) :
    cell createJobs .idempotencyKey row = some (.text r.idempotencyKey) := by
  obtain ⟨value, m, _, _, rfl⟩ := h
  rfl

/-- The INSERT names seven columns, and the defaults of the others are those of a new row. -/
theorem insertRow_eq {now : Time} {jobId : String} {req : JobRequest} {value : J}
    (hvalue : json.input (json.marshal (req.metadata.getD [])) = some value) :
    insertRow json.input createJobs now (insertArgs json jobId req) insertColumns =
      some (columnsOf (newRow now jobId req) value) := by
  have hnamed : (createJobs.take 15).mapM (fun d => d.value json.input now
      (insertArgs json jobId req) ((insertColumns.lookup d.column).getD d.default)) =
        some ((columnsOf (newRow now jobId req) value).take 15) := rfl
  have hmetadata : (ColumnType.jsonb.store json.input
      (.string (json.marshal (req.metadata.getD [])))) = some (.jsonb value) := by
    rw [ColumnType.store, hvalue, Option.map_some]
  have hlast : (createJobs.drop 15).mapM (fun d => d.value json.input now
      (insertArgs json jobId req) ((insertColumns.lookup d.column).getD d.default)) =
        some [.jsonb value] := by
    change (do
      let x ← (do
        let x ← ColumnType.jsonb.store json.input
          (.string (json.marshal (req.metadata.getD [])))
        if x.isNull then none else some x)
      pure [x]) = _
    rw [hmetadata]
    rfl
  rw [insertRow, ← List.take_append_drop 15 createJobs, List.mapM_append, hnamed, hlast]
  rfl

variable [DecidableEq J]

theorem exec_update (json : MetadataJson J) (w : Write)
    (hw : ∀ now jobId req, w ≠ .insertJob now jobId req) :
    ∃ set args, (∀ t : Table J, w.exec json t =
        update json.input createJobs Time.zero args set .jobId w.jobId t) ∧
      set.lookup .jobId = none ∧
      ∀ (r : JobRow) (value : J), setRow json.input createJobs Time.zero args set
        (columnsOf r value) = some (columnsOf (r.apply w.progress) value) := by
  cases w with
  | insertJob now jobId req => exact absurd rfl (hw now jobId req)
  | updateJobStarted jobId startedAt => exact ⟨_, _, fun t => rfl, rfl, fun r value => rfl⟩
  | updateJobCompleted jobId completedAt videosFetched videosInserted =>
      exact ⟨_, _, fun t => rfl, rfl, fun r value => rfl⟩
  | updateJobRetrying jobId errorMessage attempt nextRetryAt =>
      cases nextRetryAt with
      | none => exact ⟨_, _, fun t => rfl, rfl, fun r value => rfl⟩
      | some at_ => exact ⟨_, _, fun t => rfl, rfl, fun r value => rfl⟩
  | updateJobDead jobId errorMessage => exact ⟨_, _, fun t => rfl, rfl, fun r value => rfl⟩

theorem execAll_append (t : Table J) (log log' : List Write) :
    execAll json t (log ++ log') = execAll json (execAll json t log) log' :=
  List.foldl_append

theorem execAll_cons {t t' : Table J} {w : Write} (h : w.exec json t = some t')
    (log : List Write) : execAll json t (w :: log) = execAll json t' log := by
  rw [execAll, List.foldl_cons, h]
  rfl

private theorem any_cell_iff {column : Column} {key : JobRow → String}
    (hcell : ∀ row r, Represents json row r → cell createJobs column row = some (.text (key r)))
    {t : Table J} {rows : List JobRow} (h : List.Forall₂ (Represents json) t rows) (s : String) :
    (t.any fun row => cell createJobs column row = some (.text s)) = true ↔ s ∈ rows.map key := by
  induction h with
  | nil => simp
  | cons hrow _ ih =>
      rw [List.any_cons, List.map_cons, List.mem_cons, Bool.or_eq_true, ih, hcell _ _ hrow]
      simp [eq_comm]

private theorem conflicts_iff {t : Table J} {jobs : JobsTable} (h : RepresentsTable json t jobs)
    (r : JobRow) (value : J) :
    conflicts createJobs t (columnsOf r value) = true ↔
      r.jobId ∈ jobs.rows.map (·.jobId) ∨
        r.idempotencyKey ∈ jobs.rows.map (·.idempotencyKey) := by
  have hid := any_cell_iff (fun _ _ h => h.cell_jobId) h r.jobId
  have hkey := any_cell_iff (fun _ _ h => h.cell_idempotencyKey) h r.idempotencyKey
  rw [← hid, ← hkey, ← Bool.or_eq_true]
  change ((t.any fun row => decide (cell createJobs .jobId row = some (.text r.jobId))) ||
    ((t.any fun row =>
      decide (cell createJobs .idempotencyKey row = some (.text r.idempotencyKey))) || false)) =
    true ↔ _
  rw [Bool.or_false]

theorem exec_insertJob (hjson : json.Exact) {t : Table J} {jobs : JobsTable}
    (h : RepresentsTable json t jobs) (now : Time) (jobId : String) (req : JobRequest) :
    (∃ t' jobs', (Write.insertJob now jobId req).exec json t = some t' ∧
        jobs.insert (newRow now jobId req) = some jobs' ∧ RepresentsTable json t' jobs') ∨
      (Write.insertJob now jobId req).exec json t = none ∧
        jobs.insert (newRow now jobId req) = none := by
  obtain ⟨value, m, hvalue, hscan, hsame⟩ := hjson (req.metadata.getD [])
  have hconflicts := conflicts_iff h (newRow now jobId req) value
  have hexec : (Write.insertJob now jobId req).exec json t =
      if conflicts createJobs t (columnsOf (newRow now jobId req) value) then none
      else some (columnsOf (newRow now jobId req) value :: t) := by
    simp only [Write.exec, Dml.insert, insertRow_eq hvalue, Option.bind_eq_bind, Option.bind_some]
  cases hinsert : jobs.insert (newRow now jobId req) with
  | none =>
      refine .inr ⟨?_, rfl⟩
      rw [hexec, if_pos]
      rw [hconflicts]
      unfold JobsTable.insert at hinsert
      split at hinsert
      · cases hinsert
      · next hused =>
          rw [not_and_or, not_not, not_not] at hused
          exact hused
  | some jobs' =>
      refine .inl ⟨columnsOf (newRow now jobId req) value :: t, jobs', ?_, rfl, ?_⟩
      · rw [hexec, if_neg]
        rw [hconflicts]
        unfold JobsTable.insert at hinsert
        split at hinsert
        · next hnew => exact not_or.mpr hnew
        · cases hinsert
      · rw [RepresentsTable, JobsTable.rows_insert hinsert]
        exact .cons ⟨value, m, hscan, hsame, rfl⟩ h

private theorem exec_of_update (w : Write) (hw : ∀ now jobId req, w ≠ .insertJob now jobId req)
    {t : Table J} {jobs : JobsTable} (h : RepresentsTable json t jobs) :
    ∃ t', w.exec json t = some t' ∧
      RepresentsTable json t' (jobs.update w.jobId w.progress) := by
  obtain ⟨set, args, hexec, _, hset⟩ := exec_update json w hw
  rw [hexec]
  change ∃ t', _ ∧ List.Forall₂ (Represents json) t'
    (jobs.rows.map fun r => if r.jobId = w.jobId then r.apply w.progress else r)
  unfold RepresentsTable at h
  generalize jobs.rows = rows at h
  induction h with
  | nil => exact ⟨[], rfl, .nil⟩
  | @cons row r t rows hrow _ ih =>
      obtain ⟨t', ht', htail⟩ := ih
      have hcell := hrow.cell_jobId
      obtain ⟨value, m, hscan, hsame, rfl⟩ := hrow
      unfold update at ht' ⊢
      rw [List.mapM_cons, ht', List.map_cons, hcell]
      by_cases hid : r.jobId = w.jobId
      · rw [hid, if_pos rfl, if_pos rfl, hset]
        exact ⟨_, rfl, .cons ⟨value, m, hscan, hsame, rfl⟩ htail⟩
      · have hne : ¬ (some (Datum.text r.jobId) : Option (Datum J)) = some (.text w.jobId) := by
          simpa using hid
        rw [if_neg hid, if_neg hne]
        exact ⟨_, rfl, .cons ⟨value, m, hscan, hsame, rfl⟩ htail⟩

theorem exec_represents (hjson : json.Exact) (w : Write) {t : Table J} {jobs : JobsTable}
    (h : RepresentsTable json t jobs) :
    RepresentsTable json ((w.exec json t).getD t) (w.apply jobs) := by
  by_cases hw : ∀ now jobId req, w ≠ .insertJob now jobId req
  · obtain ⟨t', hexec, ht'⟩ := exec_of_update w hw h
    rw [hexec]
    cases w with
    | insertJob now jobId req => exact absurd rfl (hw now jobId req)
    | _ => exact ht'
  · push Not at hw
    obtain ⟨now, jobId, req, rfl⟩ := hw
    rcases exec_insertJob hjson h now jobId req with
      ⟨t', jobs', hexec, hinsert, ht'⟩ | ⟨hexec, hinsert⟩
    · rw [hexec, Write.apply, hinsert]
      exact ht'
    · rw [hexec, Write.apply, hinsert]
      exact h

theorem select_represents {t : Table J} {jobs : JobsTable} (h : RepresentsTable json t jobs)
    {id : String} {r : JobRow} (hr : jobs.byId id = some r) :
    ∃ row, select createJobs .jobId id t = some row ∧ Represents json row r := by
  unfold RepresentsTable at h
  unfold JobsTable.byId at hr
  generalize jobs.rows = rows at h hr
  induction h with
  | nil => cases hr
  | @cons row r' t rows hrow _ ih =>
      rw [select, List.find?_cons, hrow.cell_jobId]
      by_cases hid : r'.jobId = id
      · rw [List.find?_cons_of_pos (by simpa using hid)] at hr
        obtain rfl := Option.some.inj hr
        exact ⟨row, by simp [hid], hrow⟩
      · rw [List.find?_cons_of_neg (by simpa using hid)] at hr
        obtain ⟨row', hselect, hrepr⟩ := ih hr
        exact ⟨row', by simpa [hid, select] using hselect, hrepr⟩

end

end TrendingPipeline.Store.JobColumns
