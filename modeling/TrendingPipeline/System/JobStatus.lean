/- Unit: TrendingPipeline/System/JobStatus
   source: backend/db/db.go, backend/etl/server.go, backend/worker/worker.go
   digest: The writes a run makes to `jobs`, and that GetJobByID tells the last of them. -/

import TrendingPipeline.Base.JsonRoundTrip
import TrendingPipeline.Etl.GetJobStatus
import TrendingPipeline.System.Step

set_option autoImplicit false
set_option relaxedAutoImplicit false

namespace TrendingPipeline.System.JobStatus

open TrendingPipeline.Base.Calendar (Time)
open TrendingPipeline.Base.JsonRoundTrip (Fits parse_render)
open TrendingPipeline.Base.JsonText (Json parse render)
open TrendingPipeline.Base.Runs
open TrendingPipeline.Etl.GetJobStatus
open TrendingPipeline.Store.Dml (Table)
open TrendingPipeline.Store.JobColumns
open TrendingPipeline.Store.Statements
open TrendingPipeline.Store.Tables (Db JobProgress JobsTable)
open TrendingPipeline.System.Step
open TrendingPipeline.Worker.Machine (Input Point)
open TrendingPipeline.Worker.ProcessJob (DeadReason Job backoff fetchErrorMessage)

def writeAt (job : Job) (inp : Input) : Point → Option Write
  | .start => some (.updateJobStarted job.id (inp.clock 0))
  | .retry attempt =>
      some (.updateJobRetrying job.id fetchErrorMessage (Int32.ofNat attempt)
        (some ((inp.clock 0).addSeconds (backoff attempt))))
  | .ingest _ [] videosFetched videosInserted =>
      some (.updateJobCompleted job.id (inp.clock 0) videosFetched videosInserted)
  | .dead reason => some (.updateJobDead job.id reason.message)
  | .fetch _ | .sleep _ | .ingest _ (_ :: _) _ _ => none

/-- The write that reaches the table in a step; a lost statement does not. -/
def writeOf (s : State) (a : Act) : Option Write :=
  if a.fault = .lost then none
  else
    match a with
    | .call i (.insert _ jobId now) =>
        match s.calls[i]? with
        | some c => c.inserting.map (.insertJob now jobId)
        | none => none
    | .work w inp =>
        match s.workers[w]? with
        | some (.busy job p) => writeAt job inp p
        | _ => none
    | _ => none

/-- The writes of a run, in order. -/
def writes : State → List Act → List Write
  | _, [] => []
  | s, a :: as => (writeOf s a).toList ++ (step s a).elim [] fun t => writes t as

private theorem jobs_exec_update (f : Fault) (db : Db) (id : String)
    (g : JobProgress → JobProgress) :
    (f.exec db (some (updateJob db id g))).2.jobs =
      if f = .lost then db.jobs else db.jobs.update id g := by
  cases f <;> rfl

private theorem jobs_exec_insert (f : Fault) (db : Db) (now : Time) (jobId : String)
    (req : Proto.Messages.JobRequest) :
    (f.exec db (insertJob db now jobId req)).2.jobs =
      if f = .lost then db.jobs else (Write.insertJob now jobId req).apply db.jobs := by
  have hrows : (insertJob db now jobId req).elim db.jobs (·.jobs) =
      (Write.insertJob now jobId req).apply db.jobs := by
    rw [Write.apply]
    cases hinsert : insertJob db now jobId req with
    | none =>
        have hrefused : db.jobs.insert (newRow now jobId req) = none := by
          rw [← Option.not_isSome_iff_eq_none, JobsTable.insert_isSome_iff]
          have hnot := (Option.not_isSome_iff_eq_none).mpr hinsert
          rwa [insertJob_isSome_iff] at hnot
        rw [hrefused]
        rfl
    | some db' =>
        rw [insertJob_jobs hinsert]
        rfl
  rw [← hrows]
  cases f <;> cases insertJob db now jobId req <;> rfl

private theorem jobs_exec_insertVideo (f : Fault) (db : Db) (v : Youtube.FetchTrending.Video) :
    (f.exec db (insertVideo db v)).2.jobs = db.jobs := by
  rcases hexec : f.exec db (insertVideo db v) with ⟨ok, db'⟩
  cases ok with
  | true => exact insertVideo_jobs (Fault.exec_ok hexec).2
  | false =>
      rcases Fault.exec_failed hexec with rfl | ⟨_, heffect⟩
      · rfl
      · exact insertVideo_jobs heffect

private theorem jobs_step (job : Job) (inp : Input) (db : Db) (p : Point) :
    (Worker.Machine.step job inp db p).2.jobs =
      if inp.fault = .lost then db.jobs
      else (writeAt job inp p).elim db.jobs (Write.apply db.jobs) := by
  cases p with
  | start =>
      refine Eq.trans ?_ (jobs_exec_update inp.fault db job.id (started (inp.clock 0)))
      simp only [Worker.Machine.step, updateJobStarted]
      split
      · next hexec => rw [hexec]
      · next hexec => rw [hexec]
  | fetch attempt =>
      have hsame : (Worker.Machine.step job inp db (.fetch attempt)).2 = db := by
        simp only [Worker.Machine.step]
        split <;> rfl
      rw [hsame]
      exact (ite_self _).symm
  | retry attempt =>
      refine Eq.trans ?_ (jobs_exec_update inp.fault db job.id (retrying fetchErrorMessage
        (Int32.ofNat attempt) ((inp.clock 0).addSeconds (backoff attempt))))
      simp only [Worker.Machine.step, updateJobRetrying]
      split
      · next hexec => rw [hexec]
      · next hexec => rw [hexec]
  | sleep attempt =>
      have hsame : (Worker.Machine.step job inp db (.sleep attempt)).2 = db := by
        simp only [Worker.Machine.step]
        split <;> rfl
      rw [hsame]
      exact (ite_self _).symm
  | ingest attempt todo videosFetched videosInserted =>
      cases todo with
      | nil =>
          exact jobs_exec_update inp.fault db job.id
            (completed (inp.clock 0) videosFetched videosInserted)
      | cons v vs =>
          refine Eq.trans ?_ (ite_self _).symm
          rw [← jobs_exec_insertVideo inp.fault db v]
          simp only [Worker.Machine.step]
          split
          · next hexec => rw [hexec]
          · next hexec => rw [hexec]
  | dead reason => exact jobs_exec_update inp.fault db job.id (dead reason.message)

private theorem jobs_call {db : Db} {c : Etl.Submit.Call} {ev : Etl.Submit.Event}
    {e : Etl.Submit.Effect} (h : Etl.Submit.step db c ev = some e) :
    e.db.jobs = match ev with
      | .insert fault jobId now =>
          if fault = .lost then db.jobs
          else (c.inserting.map (Write.insertJob now jobId)).elim db.jobs (Write.apply db.jobs)
      | _ => db.jobs := by
  cases ev with
  | insert fault jobId now =>
      simp only [Etl.Submit.step] at h
      split at h
      · next req hpoint =>
          obtain rfl := Option.some.inj h
          have hjobs := jobs_exec_insert fault db now jobId req
          have hinserting : c.inserting = some req := by
            rw [Etl.Submit.Call.inserting, hpoint]
          dsimp only
          rw [hinserting]
          unfold Etl.Submit.onInsert
          rcases hexec : fault.exec db (insertJob db now jobId req) with ⟨ok, db'⟩
          rw [hexec] at hjobs
          cases ok <;> exact hjobs
      · cases h
  | recv received =>
      simp only [Etl.Submit.step] at h
      split at h
      · obtain rfl := Option.some.inj h
        rfl
      · cases h
  | lookup fault now =>
      simp only [Etl.Submit.step] at h
      split at h
      · obtain rfl := Option.some.inj h
        rfl
      · cases h
  | send now =>
      simp only [Etl.Submit.step] at h
      split at h
      · obtain rfl := Option.some.inj h
        rfl
      · cases h

private theorem jobs_callStep {s : State} {i : Nat} {ev : Etl.Submit.Event} {c : Etl.Submit.Call}
    {e : Etl.Submit.Effect} (hc : s.calls[i]? = some c)
    (h : Etl.Submit.step s.db c ev = some e) :
    e.db.jobs = (writeOf s (.call i ev)).elim s.db.jobs (Write.apply s.db.jobs) := by
  rw [jobs_call h]
  cases ev with
  | insert fault jobId now =>
      unfold writeOf
      simp only [Act.fault, hc]
      split <;> rfl
  | recv received =>
      have hnone : writeOf s (.call i (.recv received)) = none := ite_self none
      rw [hnone]
      rfl
  | lookup fault now =>
      have hnone : writeOf s (.call i (.lookup fault now)) = none := ite_self none
      rw [hnone]
      rfl
  | send now =>
      have hnone : writeOf s (.call i (.send now)) = none := ite_self none
      rw [hnone]
      rfl

private theorem jobs_of_step {s t : State} {a : Act} (h : step s a = some t) :
    t.db.jobs = (writeOf s a).elim s.db.jobs (Write.apply s.db.jobs) := by
  cases acts_of_step h with
  | call i ev c e hc hstep _ => exact jobs_callStep hc hstep
  | send i ev c e job hc hstep _ _ => exact jobs_callStep hc hstep
  | work w inp job p hw =>
      rw [State.afterWork_db, jobs_step]
      unfold writeOf
      simp only [Act.fault, hw]
      split <;> rfl
  | submitJob req _ => rfl
  | submitBatch _ => rfl
  | receive w job rest _ _ => rfl
  | shutdown _ => rfl
  | exit _ _ => rfl
  | boot n _ => rfl

private theorem jobs_of_run {s t : State} {acts : List Act} (h : run step s acts = some t) :
    t.db.jobs = (writes s acts).foldl Write.apply s.db.jobs := by
  induction acts generalizing s with
  | nil =>
      obtain rfl := Option.some.inj h
      rfl
  | cons a acts ih =>
      obtain ⟨m, hstep, hrest⟩ := run_cons_eq_some.mp h
      rw [ih hrest, jobs_of_step hstep, writes, hstep, List.foldl_append]
      cases writeOf s a <;> rfl

/-- On every sequence of writes, GetJobByID on the id of an accepted INSERT tells its
request and the columns last written for the job, the timestamps to the microsecond that a
TIMESTAMPTZ keeps, and a write to another job does not show. So it is in every run of the
process, of which the writes make the table by its columns that of the rows. -/
theorem getJobByID_faithful {J : Type} [DecidableEq J] {json : MetadataJson J}
    (hjson : json.Exact) :
    (∀ before now jobId req t after,
      (Write.insertJob now jobId req).exec json (execAll json [] before) = some t →
      ∃ status, getJobByID json (execAll json t after) jobId = some status ∧
        Faithful now jobId req (ownWrites jobId after) status) ∧
      (∀ (t t' : Table J) (w : Write) (id : String), w.exec json t = some t' → id ≠ w.jobId →
        getJobByID json t' id = getJobByID json t id) ∧
      ∀ acts s, run step (State.cold .empty) acts = some s →
        RepresentsTable json (execAll json [] (writes (State.cold .empty) acts)) s.db.jobs ∧
          ∀ before now jobId req after,
            writes (State.cold .empty) acts = before ++ .insertJob now jobId req :: after →
            ((Write.insertJob now jobId req).exec json (execAll json [] before)).isSome →
            ∃ status,
              getJobByID json (execAll json [] (writes (State.cold .empty) acts)) jobId =
                some status ∧ Faithful now jobId req (ownWrites jobId after) status := by
  refine ⟨?_, ?_, ?_⟩
  · intro before now jobId req t after hinsert
    exact faithful_of_insert hjson hinsert
  · intro t t' w id hexec hid
    exact getJobByID_exec_of_ne hjson hexec hid
  · intro acts s hrun
    constructor
    · rw [jobs_of_run hrun]
      exact execAll_represents hjson .empty _
    · intro before now jobId req after hlog haccepted
      obtain ⟨t, ht⟩ := Option.isSome_iff_exists.mp haccepted
      rw [hlog, execAll_append, execAll_cons ht]
      exact faithful_of_insert hjson ht

/-- Metadata as a JSON object of strings, and stored as the map it is. -/
def jsonObject : MetadataJson Metadata where
  marshal m := String.ofList (render (.obj (m.map fun e => (e.1, .str e.2))))
  input text :=
    match parse text with
    | some (.obj ms) => ms.mapM fun
        | (key, .str value) => some (key, value)
        | _ => none
    | _ => none
  scan := some

private theorem jsonObject_exact : jsonObject.Exact := by
  intro m
  refine ⟨m, m, ?_, rfl, fun _ => rfl⟩
  have hfits : Fits 1 (.obj (m.map fun e => (e.1, .str e.2))) := by
    intro e he
    obtain ⟨_, _, rfl⟩ := List.mem_map.mp he
    trivial
  have hparse := parse_render (hfits.mono (by decide))
  simp only [jsonObject, hparse]
  clear hfits hparse
  induction m with
  | nil => rfl
  | cons e m ih =>
      rw [List.map_cons, List.mapM_cons, ih]
      rfl

def sampleRequest : Proto.Messages.JobRequest :=
  { region := "US", idempotencyKey := "k", metadata := some [("source", "cron")] }

/-- A job that was inserted and then started five seconds and some nanoseconds later. -/
theorem getJobByID_faithful_started :
    ∃ t status startedAt,
      (Write.insertJob .zero "j" sampleRequest).exec jsonObject [] = some t ∧
      getJobByID jsonObject
        (execAll jsonObject t [.updateJobStarted "j" { sec := 5, nsec := 7777 }]) "j" =
        some status ∧
      status.state = .running ∧ status.region = "US" ∧ status.startedAt = some startedAt ∧
      startedAt.asTime = { sec := 5, nsec := 7000 } ∧ status.completedAt = none := by
  rcases exec_insertJob jsonObject_exact .empty .zero "j" sampleRequest
    with ⟨t, _, hexec, _, _⟩ | ⟨_, hrefused⟩
  · obtain ⟨status, hget, hfaithful⟩ := (getJobByID_faithful jsonObject_exact).1 [] .zero "j"
      sampleRequest t [.updateJobStarted "j" { sec := 5, nsec := 7777 }] hexec
    have hcompleted : Option.Rel Shows status.completedAt none := hfaithful.completedAt
    have hstarted : Option.Rel Shows status.startedAt (some { sec := 5, nsec := 7777 }) :=
      hfaithful.startedAt
    rcases hstart : status.startedAt with _ | startedAt
    · rw [hstart] at hstarted
      cases hstarted
    rcases hend : status.completedAt with _ | completedAt
    · rw [hstart] at hstarted
      obtain ⟨hsec, hnsec⟩ : Shows startedAt { sec := 5, nsec := 7777 } := by
        cases hstarted with
        | some h => exact h
      exact ⟨t, status, startedAt, hexec, hget, hfaithful.state, hfaithful.region, hstart,
        Time.ext hsec hnsec, hend⟩
    · rw [hend] at hcompleted
      cases hcompleted
  · exact absurd hrefused (by decide)

end TrendingPipeline.System.JobStatus
