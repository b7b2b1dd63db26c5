/- Unit: TrendingPipeline/Store/Tables
   source: backend/db/migrations/001_create_jobs.up.sql, 002_create_videos.up.sql
   digest: The two tables with their constraints, and how rows are found and changed. -/

import Mathlib.Data.Fintype.EquivFin
import TrendingPipeline.Base.KeyedList
import TrendingPipeline.Youtube.FetchTrending

set_option autoImplicit false
set_option relaxedAutoImplicit false

namespace TrendingPipeline.Store.Tables

open TrendingPipeline.Base
open TrendingPipeline.Base.Calendar (Time)
open TrendingPipeline.Youtube.FetchTrending (Video)

/-- The values the code writes to the text column `state`. -/
inductive RowState
  | queued
  | running
  | retrying
  | done
  | dead
  deriving DecidableEq

def RowState.text : RowState → String
  | .queued => "queued"
  | .running => "running"
  | .retrying => "retrying"
  | .done => "done"
  | .dead => "dead"

/-- No further attempt is made on a job in such a state. -/
def RowState.terminal : RowState → Bool
  | .done | .dead => true
  | .queued | .running | .retrying => false

/-- The columns some UPDATE writes, with the defaults of the schema. -/
structure JobProgress where
  state : RowState := .queued
  attempt : Int32 := 0
  videosFetched : Int32 := 0
  videosInserted : Int32 := 0
  errorMessage : Option String := none
  nextRetryAt : Option Time := none
  startedAt : Option Time := none
  completedAt : Option Time := none
  deriving DecidableEq

/-- A row of `jobs`. The columns declared here are written once, by the INSERT. -/
structure JobRow extends JobProgress where
  jobId : String
  idempotencyKey : String
  region : String
  categoryId : Int32
  maxResults : Int32
  maxAttempts : Int32 := 3
  createdAt : Time
  metadata : List (String × String)
  deriving DecidableEq

def JobRow.apply (g : JobProgress → JobProgress) (r : JobRow) : JobRow :=
  { r with toJobProgress := g r.toJobProgress }

/-- `job_id` is the primary key and `idempotency_key` is UNIQUE. -/
structure JobsTable where
  rows : List JobRow
  jobId_nodup : (rows.map (·.jobId)).Nodup
  key_nodup : (rows.map (·.idempotencyKey)).Nodup
  deriving DecidableEq

namespace JobsTable

def empty : JobsTable where
  rows := []
  jobId_nodup := List.nodup_nil
  key_nodup := List.nodup_nil

def byId (t : JobsTable) (id : String) : Option JobRow := t.rows.find? (·.jobId = id)

def byKey (t : JobsTable) (key : String) : Option JobRow :=
  t.rows.find? (·.idempotencyKey = key)

/-- An INSERT that violates a key constraint is rejected. -/
def insert (t : JobsTable) (row : JobRow) : Option JobsTable :=
  if h : row.jobId ∉ t.rows.map (·.jobId) ∧
      row.idempotencyKey ∉ t.rows.map (·.idempotencyKey) then
    some
      { rows := row :: t.rows
        jobId_nodup := List.nodup_cons.mpr ⟨h.1, t.jobId_nodup⟩
        key_nodup := List.nodup_cons.mpr ⟨h.2, t.key_nodup⟩ }
  else none

/-- An UPDATE of the row with a job id, if there is one. -/
def update (t : JobsTable) (id : String) (g : JobProgress → JobProgress) : JobsTable where
  rows := t.rows.map fun r => if r.jobId = id then r.apply g else r
  jobId_nodup := by
    rw [KeyedList.map_key fun r => by split <;> rfl]
    exact t.jobId_nodup
  key_nodup := by
    rw [KeyedList.map_key fun r => by split <;> rfl]
    exact t.key_nodup

theorem byId_eq_some_iff {t : JobsTable} {id : String} {r : JobRow} :
    t.byId id = some r ↔ r ∈ t.rows ∧ r.jobId = id :=
  KeyedList.find_eq_some_iff t.jobId_nodup

theorem byKey_eq_some_iff {t : JobsTable} {key : String} {r : JobRow} :
    t.byKey key = some r ↔ r ∈ t.rows ∧ r.idempotencyKey = key :=
  KeyedList.find_eq_some_iff t.key_nodup

theorem byId_isSome_iff {t : JobsTable} {id : String} :
    (t.byId id).isSome ↔ id ∈ t.rows.map (·.jobId) := by
  simp [byId, List.find?_isSome]

theorem byId_eq_none_iff {t : JobsTable} {id : String} :
    t.byId id = none ↔ id ∉ t.rows.map (·.jobId) :=
  KeyedList.find_eq_none_iff

theorem exists_freshId (t : JobsTable) : ∃ id, t.byId id = none := by
  obtain ⟨id, hid⟩ := Infinite.exists_notMem_finset (t.rows.map (·.jobId)).toFinset
  refine ⟨id, byId_eq_none_iff.mpr ?_⟩
  rwa [List.mem_toFinset] at hid

theorem byKey_eq_none_iff {t : JobsTable} {key : String} :
    t.byKey key = none ↔ key ∉ t.rows.map (·.idempotencyKey) :=
  KeyedList.find_eq_none_iff

theorem rows_insert {t t' : JobsTable} {row : JobRow} (h : t.insert row = some t') :
    t'.rows = row :: t.rows := by
  unfold insert at h
  split at h
  · obtain rfl := Option.some.inj h
    rfl
  · cases h

theorem byId_insert {t t' : JobsTable} {row : JobRow} (h : t.insert row = some t')
    (id : String) : t'.byId id = if row.jobId = id then some row else t.byId id := by
  rw [byId, rows_insert h]
  exact KeyedList.find_cons

theorem byKey_insert {t t' : JobsTable} {row : JobRow} (h : t.insert row = some t')
    (key : String) : t'.byKey key = if row.idempotencyKey = key then some row else t.byKey key := by
  rw [byKey, rows_insert h]
  exact KeyedList.find_cons

theorem insert_isSome_iff {t : JobsTable} {row : JobRow} :
    (t.insert row).isSome ↔ t.byId row.jobId = none ∧ t.byKey row.idempotencyKey = none := by
  rw [byId_eq_none_iff, byKey_eq_none_iff, insert]
  split <;> simp_all

theorem byId_update (t : JobsTable) (id : String) (g : JobProgress → JobProgress) (j : String) :
    (t.update id g).byId j = (t.byId j).map fun r => if r.jobId = id then r.apply g else r :=
  KeyedList.find_map fun r => by split <;> rfl

theorem byKey_update (t : JobsTable) (id : String) (g : JobProgress → JobProgress)
    (key : String) :
    (t.update id g).byKey key =
      (t.byKey key).map fun r => if r.jobId = id then r.apply g else r :=
  KeyedList.find_map fun r => by split <;> rfl

theorem byId_update_self {t : JobsTable} {id : String} {r : JobRow}
    (g : JobProgress → JobProgress) (h : t.byId id = some r) :
    (t.update id g).byId id = some (r.apply g) := by
  rw [byId_update, h, Option.map_some, if_pos (byId_eq_some_iff.mp h).2]

theorem byId_update_of_ne {t : JobsTable} {id j : String} (g : JobProgress → JobProgress)
    (h : j ≠ id) : (t.update id g).byId j = t.byId j := by
  rw [byId_update]
  cases hj : t.byId j with
  | none => rfl
  | some r => simp [(byId_eq_some_iff.mp hj).2, h]

theorem ids_update (t : JobsTable) (id : String) (g : JobProgress → JobProgress) :
    (t.update id g).rows.map (·.jobId) = t.rows.map (·.jobId) :=
  KeyedList.map_key fun r => by split <;> rfl

end JobsTable

def inInteger (n : Int64) : Bool := -2 ^ 31 ≤ n.toInt && n.toInt < 2 ^ 31

/-- The primary key of `videos`. -/
def videoKey (v : Video) : String × String × String := (v.videoId, v.region, v.jobId)

structure VideosTable where
  rows : List Video
  key_nodup : (rows.map videoKey).Nodup
  category_range : ∀ v ∈ rows, inInteger v.categoryId = true
  deriving DecidableEq

namespace VideosTable

def empty : VideosTable where
  rows := []
  key_nodup := List.nodup_nil
  category_range := List.forall_mem_nil _

/-- An INSERT that violates the primary key or the range of `category_id` is rejected. -/
def insert (t : VideosTable) (v : Video) : Option VideosTable :=
  if h : videoKey v ∉ t.rows.map videoKey ∧ inInteger v.categoryId = true then
    some
      { rows := v :: t.rows
        key_nodup := List.nodup_cons.mpr ⟨h.1, t.key_nodup⟩
        category_range := List.forall_mem_cons.mpr ⟨h.2, t.category_range⟩ }
  else none

def countOf (t : VideosTable) (id : String) : Nat := t.rows.countP (·.jobId = id)

theorem rows_insert {t t' : VideosTable} {v : Video} (h : t.insert v = some t') :
    t'.rows = v :: t.rows := by
  unfold insert at h
  split at h
  · obtain rfl := Option.some.inj h
    rfl
  · cases h

theorem countOf_insert {t t' : VideosTable} {v : Video} (h : t.insert v = some t')
    (id : String) : t'.countOf id = t.countOf id + if v.jobId = id then 1 else 0 := by
  simp [countOf, rows_insert h, List.countP_cons]

end VideosTable

/-- Both tables; `videos.job_id` references `jobs`. -/
structure Db where
  jobs : JobsTable
  videos : VideosTable
  references : ∀ v ∈ videos.rows, v.jobId ∈ jobs.rows.map (·.jobId)
  deriving DecidableEq

/-- The tables as the migrations create them. -/
def Db.empty : Db where
  jobs := .empty
  videos := .empty
  references := List.forall_mem_nil _

theorem Db.countOf_eq_zero {db : Db} {id : String} (h : id ∉ db.jobs.rows.map (·.jobId)) :
    db.videos.countOf id = 0 := by
  refine List.countP_eq_zero.mpr fun v hv hid => h ?_
  obtain rfl := of_decide_eq_true hid
  exact db.references v hv

end TrendingPipeline.Store.Tables
