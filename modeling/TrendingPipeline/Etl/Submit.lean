/- Unit: TrendingPipeline/Etl/Submit
   source: backend/etl/server.go
   digest: SubmitJob and SubmitBatch cut at their statements, receives and channel sends. -/

import TrendingPipeline.Worker.ProcessJob

set_option autoImplicit false
set_option relaxedAutoImplicit false

namespace TrendingPipeline.Etl.Submit

open TrendingPipeline.Base.Calendar (Time)
open TrendingPipeline.Proto.Messages
open TrendingPipeline.Store.Tables (Db JobRow)
open TrendingPipeline.Store.Statements
open TrendingPipeline.Worker.ProcessJob (Job)

/-- What `ETLServer.processJob` hands back: `"", false, err`, the id of a row it
found, or the id of the row it made. -/
inductive Answer
  | failed
  | existing (jobId : String)
  | created (jobId : String)
  deriving DecidableEq

inductive Reply
  | error
  | job (response : JobResponse)
  | batch (response : BatchResponse)
  deriving DecidableEq

def existsMessage : String := "Job already exists with the same idempotency key."

def queuedMessage : String := "Job queued successfully."

def processedMessage : String := "Job processed successfully."

/-- The handler that runs; SubmitBatch with its counters and results so far. -/
inductive Handler
  | submitJob
  | submitBatch (soFar : BatchResponse)
  deriving DecidableEq

inductive Point
  /-- before `stream.Recv` -/
  | recv
  /-- before GetJobByIdempotencyKey -/
  | lookup (req : JobRequest)
  /-- no row was found, before InsertJob -/
  | insert (req : JobRequest)
  /-- the row is inserted, before the send on the channel -/
  | send (job : Job)
  | returned (reply : Reply)
  deriving DecidableEq

/-- One call in progress. The answers processJob gave it so far are recorded, one
for each request it has dealt with. -/
structure Call where
  handler : Handler
  point : Point
  answers : List (JobRequest × Answer) := []
  deriving DecidableEq

def Call.submitJob (req : JobRequest) : Call where
  handler := .submitJob
  point := .lookup req

def Call.submitBatch : Call where
  handler := .submitBatch
    { totalReceived := 0, totalAccepted := 0, totalRejected := 0, results := [] }
  point := .recv

/-- The pointer that goes into the channel is the one InsertJob put an empty map in. -/
def enqueued (jobId : String) (req : JobRequest) : Job where
  id := jobId
  req := { req with metadata := some (req.metadata.getD []) }

@[simp] theorem enqueued_id (jobId : String) (req : JobRequest) :
    (enqueued jobId req).id = jobId := rfl

def Call.failed (c : Call) (req : JobRequest) : Call :=
  let answers := c.answers ++ [(req, .failed)]
  match c.handler with
  | .submitJob => { handler := .submitJob, point := .returned .error, answers := answers }
  | .submitBatch b =>
      { handler := .submitBatch { b with totalRejected := b.totalRejected + 1 }
        point := .recv, answers := answers }

def Call.existing (c : Call) (req : JobRequest) (jobId : String) (now : Time) : Call :=
  let answers := c.answers ++ [(req, .existing jobId)]
  match c.handler with
  | .submitJob =>
      { handler := .submitJob
        point := .returned (.job
          { jobId := jobId, state := .queued, message := existsMessage,
            createdAt := Timestamp.ofTime now })
        answers := answers }
  | .submitBatch b =>
      { handler := .submitBatch
          { b with
            totalRejected := b.totalRejected + 1
            results := b.results ++
              [{ jobId := jobId, state := .queued, idempotencyKey := req.idempotencyKey,
                 message := existsMessage }] }
        point := .recv, answers := answers }

def Call.created (c : Call) (req : JobRequest) (jobId : String) : Call :=
  let answers := c.answers ++ [(req, .created jobId)]
  match c.handler with
  | .submitJob =>
      { handler := .submitJob, point := .send (enqueued jobId req), answers := answers }
  | .submitBatch b =>
      { handler := .submitBatch { b with totalAccepted := b.totalAccepted + 1 }
        point := .send (enqueued jobId req), answers := answers }

def Call.sent (c : Call) (job : Job) (now : Time) : Call :=
  match c.handler with
  | .submitJob =>
      { c with
        point := .returned (.job
          { jobId := job.id, state := .queued, message := queuedMessage,
            createdAt := Timestamp.ofTime now }) }
  | .submitBatch b =>
      { c with
        handler := .submitBatch
          { b with
            results := b.results ++
              [{ jobId := job.id, state := .queued, idempotencyKey := job.req.idempotencyKey,
                 message := processedMessage }] }
        point := .recv }

/-- What `stream.Recv` gives. -/
inductive Received
  | request (req : JobRequest)
  | eof
  | error
  deriving DecidableEq

/-- The next thing a call does, with what the outside answers to it. -/
inductive Event
  | recv (received : Received)
  | lookup (fault : Fault) (now : Time)
  | insert (fault : Fault) (jobId : String) (now : Time)
  | send (now : Time)
  deriving DecidableEq

/-- A call after a step, the tables, the id `InsertJob` returned in it and the job
put on the channel in it. -/
structure Effect where
  call : Call
  db : Db
  created : Option String := none
  sent : Option Job := none

def onRecv (c : Call) (b : BatchResponse) : Received → Call
  | .request req =>
      { c with
        handler := .submitBatch { b with totalReceived := b.totalReceived + 1 }
        point := .lookup req }
  | .eof => { c with point := .returned (.batch b) }
  | .error => { c with point := .returned .error }

/-- `GetJobByIdempotencyKey` and the branch on its error. -/
def onLookup (c : Call) (db : Db) (req : JobRequest) (fault : Fault) (now : Time) : Call :=
  if fault = .none then
    match getJobByIdempotencyKey db req.idempotencyKey with
    | some row => c.existing req row.jobId now
    | none => { c with point := .insert req }
  else c.failed req

/-- `InsertJob` and the branch on its error. -/
def onInsert (c : Call) (db : Db) (req : JobRequest) (fault : Fault) (jobId : String)
    (now : Time) : Effect :=
  match fault.exec db (insertJob db now jobId req) with
  | (true, db) => { call := c.created req jobId, db := db, created := some jobId }
  | (false, db) => { call := c.failed req, db := db }

/-- One step of a call; `none` where the call does not stand before such an event. -/
def step (db : Db) (c : Call) : Event → Option Effect
  | .recv received =>
      match c.handler, c.point with
      | .submitBatch b, .recv => some { call := onRecv c b received, db := db }
      | _, _ => none
  | .lookup fault now =>
      match c.point with
      | .lookup req => some { call := onLookup c db req fault now, db := db }
      | _ => none
  | .insert fault jobId now =>
      match c.point with
      | .insert req => some (onInsert c db req fault jobId now)
      | _ => none
  | .send now =>
      match c.point with
      | .send job => some { call := c.sent job now, db := db, sent := some job }
      | _ => none

/-- The steps a call can take, by what they do to the tables and the channel. -/
inductive Steps (db : Db) (c : Call) : Event → Effect → Prop
  | received (b : BatchResponse) (received : Received) :
      c.handler = .submitBatch b → c.point = .recv →
      Steps db c (.recv received) { call := onRecv c b received, db := db }
  | unanswered (req : JobRequest) (fault : Fault) (now : Time) :
      c.point = .lookup req → fault ≠ .none →
      Steps db c (.lookup fault now) { call := c.failed req, db := db }
  | found (req : JobRequest) (row : JobRow) (now : Time) :
      c.point = .lookup req → getJobByIdempotencyKey db req.idempotencyKey = some row →
      Steps db c (.lookup .none now) { call := c.existing req row.jobId now, db := db }
  | missed (req : JobRequest) (now : Time) :
      c.point = .lookup req → getJobByIdempotencyKey db req.idempotencyKey = none →
      Steps db c (.lookup .none now) { call := { c with point := .insert req }, db := db }
  | created (req : JobRequest) (jobId : String) (now : Time) (db' : Db) :
      c.point = .insert req → insertJob db now jobId req = some db' →
      Steps db c (.insert .none jobId now)
        { call := c.created req jobId, db := db', created := some jobId }
  | rejected (req : JobRequest) (fault : Fault) (jobId : String) (now : Time) :
      c.point = .insert req → (fault = .none → insertJob db now jobId req = none) →
      Steps db c (.insert fault jobId now) { call := c.failed req, db := db }
  | orphaned (req : JobRequest) (jobId : String) (now : Time) (db' : Db) :
      c.point = .insert req → insertJob db now jobId req = some db' →
      Steps db c (.insert .applied jobId now) { call := c.failed req, db := db' }
  | sent (job : Job) (now : Time) :
      c.point = .send job →
      Steps db c (.send now) { call := c.sent job now, db := db, sent := some job }

theorem steps_of_step {db : Db} {c : Call} {ev : Event} {e : Effect}
    (h : step db c ev = some e) : Steps db c ev e := by
  cases ev with
  | recv received =>
      simp only [step] at h
      split at h
      · obtain rfl := Option.some.inj h
        exact .received _ _ ‹_› ‹_›
      · cases h
  | lookup fault now =>
      simp only [step] at h
      split at h
      · obtain rfl := Option.some.inj h
        unfold onLookup
        split
        · obtain rfl := ‹fault = .none›
          split
          · exact .found _ _ _ ‹_› ‹_›
          · exact .missed _ _ ‹_› ‹_›
        · exact .unanswered _ _ _ ‹_› ‹_›
      · cases h
  | insert fault jobId now =>
      simp only [step] at h
      split at h
      · rename_i req hpoint
        obtain rfl := Option.some.inj h
        unfold onInsert
        cases hexec : fault.exec db (insertJob db now jobId req) with
        | mk ok db' =>
            cases ok with
            | true =>
                obtain ⟨rfl, heffect⟩ := Fault.exec_ok hexec
                exact .created req jobId now db' hpoint heffect
            | false =>
                rcases Fault.exec_failed hexec with rfl | ⟨rfl, heffect⟩
                · refine .rejected req fault jobId now hpoint ?_
                  intro hnone
                  subst hnone
                  cases heffect : insertJob db' now jobId req with
                  | none => rfl
                  | some db'' => simp [heffect] at hexec
                · exact .orphaned req jobId now db' hpoint heffect
      · cases h
  | send now =>
      simp only [step] at h
      split at h
      · obtain rfl := Option.some.inj h
        exact .sent _ _ ‹_›
      · cases h

/-- The job in the hand of a submitter, between InsertJob and the send. -/
def Call.holding (c : Call) : Option Job :=
  match c.point with
  | .send job => some job
  | _ => none

/-- The request a call is about to insert a row for. -/
def Call.inserting (c : Call) : Option JobRequest :=
  match c.point with
  | .insert req => some req
  | _ => none

/-- The request a call is dealing with before it has an answer. -/
def Call.asking (c : Call) : Option JobRequest :=
  match c.point with
  | .lookup req | .insert req => some req
  | .recv | .send _ | .returned _ => none

def Call.hasReturned (c : Call) : Bool :=
  match c.point with
  | .returned _ => true
  | _ => false

variable {c : Call} {req : JobRequest} {jobId : String} {job : Job} {now : Time}

@[simp] theorem Call.holding_failed : (c.failed req).holding = none := by
  unfold Call.failed Call.holding
  cases c.handler <;> rfl

@[simp] theorem Call.holding_existing : (c.existing req jobId now).holding = none := by
  unfold Call.existing Call.holding
  cases c.handler <;> rfl

@[simp] theorem Call.holding_created :
    (c.created req jobId).holding = some (enqueued jobId req) := by
  unfold Call.created Call.holding
  cases c.handler <;> rfl

@[simp] theorem Call.holding_sent : (c.sent job now).holding = none := by
  unfold Call.sent Call.holding
  cases c.handler <;> rfl

@[simp] theorem Call.answers_failed :
    (c.failed req).answers = c.answers ++ [(req, .failed)] := by
  unfold Call.failed
  cases c.handler <;> rfl

@[simp] theorem Call.answers_existing :
    (c.existing req jobId now).answers = c.answers ++ [(req, .existing jobId)] := by
  unfold Call.existing
  cases c.handler <;> rfl

@[simp] theorem Call.answers_created :
    (c.created req jobId).answers = c.answers ++ [(req, .created jobId)] := by
  unfold Call.created
  cases c.handler <;> rfl

@[simp] theorem Call.answers_sent : (c.sent job now).answers = c.answers := by
  unfold Call.sent
  cases c.handler <;> rfl

theorem Call.answers_onRecv {b : BatchResponse} {received : Received} :
    (onRecv c b received).answers = c.answers := by
  cases received <;> rfl

@[simp] theorem Call.inserting_failed : (c.failed req).inserting = none := by
  unfold Call.failed Call.inserting
  cases c.handler <;> rfl

@[simp] theorem Call.inserting_existing : (c.existing req jobId now).inserting = none := by
  unfold Call.existing Call.inserting
  cases c.handler <;> rfl

@[simp] theorem Call.inserting_created : (c.created req jobId).inserting = none := by
  unfold Call.created Call.inserting
  cases c.handler <;> rfl

@[simp] theorem Call.inserting_sent : (c.sent job now).inserting = none := by
  unfold Call.sent Call.inserting
  cases c.handler <;> rfl

theorem Call.inserting_onRecv {b : BatchResponse} {received : Received} :
    (onRecv c b received).inserting = none := by
  cases received <;> rfl

@[simp] theorem Call.asking_failed : (c.failed req).asking = none := by
  unfold Call.failed Call.asking
  cases c.handler <;> rfl

@[simp] theorem Call.asking_existing : (c.existing req jobId now).asking = none := by
  unfold Call.existing Call.asking
  cases c.handler <;> rfl

@[simp] theorem Call.asking_created : (c.created req jobId).asking = none := by
  unfold Call.created Call.asking
  cases c.handler <;> rfl

@[simp] theorem Call.asking_sent : (c.sent job now).asking = none := by
  unfold Call.sent Call.asking
  cases c.handler <;> rfl

theorem Call.holding_onRecv {b : BatchResponse} {received : Received} :
    (onRecv c b received).holding = none := by
  cases received <;> rfl

end TrendingPipeline.Etl.Submit
