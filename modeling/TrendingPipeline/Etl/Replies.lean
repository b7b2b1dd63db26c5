/- Unit: TrendingPipeline/Etl/Replies
   source: backend/etl/server.go
   digest: What a caller is told is what processJob answered, request by request. -/

import TrendingPipeline.Etl.Submit

set_option autoImplicit false
set_option relaxedAutoImplicit false

namespace TrendingPipeline.Etl.Replies

open TrendingPipeline.Base.Calendar (Time)
open TrendingPipeline.Proto.Messages
open TrendingPipeline.Store.Tables (Db)
open TrendingPipeline.Etl.Submit
open TrendingPipeline.Worker.ProcessJob (Job)

/-- The entry of SubmitBatch's results for an answer; a failed request has none. -/
def resultOf : JobRequest × Answer → Option BatchJobResult
  | (_, .failed) => none
  | (req, .existing jobId) =>
      some { jobId := jobId, state := .queued, idempotencyKey := req.idempotencyKey,
             message := existsMessage }
  | (req, .created jobId) =>
      some { jobId := jobId, state := .queued, idempotencyKey := req.idempotencyKey,
             message := processedMessage }

def replyOf (now : Time) : Answer → Reply
  | .failed => .error
  | .existing jobId =>
      .job { jobId := jobId, state := .queued, message := existsMessage,
             createdAt := Timestamp.ofTime now }
  | .created jobId =>
      .job { jobId := jobId, state := .queued, message := queuedMessage,
             createdAt := Timestamp.ofTime now }

def Answer.isCreated : Answer → Bool
  | .created _ => true
  | .failed | .existing _ => false

/-- The counters and results SubmitBatch owes for the answers so far. -/
def tally (answers : List (JobRequest × Answer)) : BatchResponse where
  totalReceived := Int32.ofNat answers.length
  totalAccepted := Int32.ofNat (answers.countP fun x => Answer.isCreated x.2)
  totalRejected := Int32.ofNat (answers.countP fun x => !Answer.isCreated x.2)
  results := answers.filterMap resultOf

/-- A call's variables and reply against the answers it was given. -/
def Coherent (c : Call) : Prop :=
  match c.handler, c.point with
  | .submitJob, .recv => False
  | .submitJob, .lookup _ | .submitJob, .insert _ => c.answers = []
  | .submitJob, .send job => ∃ req, job = enqueued job.id req ∧ c.answers = [(req, .created job.id)]
  | .submitJob, .returned reply =>
      ∃ req answer now, c.answers = [(req, answer)] ∧ reply = replyOf now answer
  | .submitBatch b, .recv => b = tally c.answers
  | .submitBatch b, .lookup _ | .submitBatch b, .insert _ =>
      b = { tally c.answers with totalReceived := (tally c.answers).totalReceived + 1 }
  | .submitBatch b, .send job =>
      ∃ req before, job = enqueued job.id req ∧
        c.answers = before ++ [(req, .created job.id)] ∧
        b = { tally c.answers with results := (tally before).results }
  | .submitBatch _, .returned reply => reply = .error ∨ reply = .batch (tally c.answers)

theorem coherent_submitJob (req : JobRequest) : Coherent (Call.submitJob req) := rfl

theorem coherent_submitBatch : Coherent Call.submitBatch := rfl

private theorem tally_append (answers : List (JobRequest × Answer)) (req : JobRequest)
    (answer : Answer) :
    tally (answers ++ [(req, answer)]) =
      { totalReceived := (tally answers).totalReceived + 1
        totalAccepted := (tally answers).totalAccepted + if Answer.isCreated answer then 1 else 0
        totalRejected := (tally answers).totalRejected + if Answer.isCreated answer then 0 else 1
        results := (tally answers).results ++ (resultOf (req, answer)).toList } := by
  have hresult : [(req, answer)].filterMap resultOf = (resultOf (req, answer)).toList := by
    rw [List.filterMap_cons]
    cases resultOf (req, answer) <;> rfl
  simp only [tally, List.length_append, List.countP_append, List.filterMap_append, hresult]
  cases answer <;> simp [Answer.isCreated, Int32.ofNat_add]

variable {c : Call} {req : JobRequest} {jobId : String} {job : Job} {now : Time}

/-- A request being dealt with leaves the answers alone, and a batch has counted it. -/
theorem Coherent.failed (h : Coherent c) (hpoint : c.point = .lookup req ∨ c.point = .insert req) :
    Coherent (c.failed req) := by
  obtain ⟨handler, point, answers⟩ := c
  cases handler with
  | submitJob =>
      obtain rfl : answers = [] := by rcases hpoint with rfl | rfl <;> exact h
      exact ⟨req, .failed, Time.zero, rfl, rfl⟩
  | submitBatch b =>
      have hb : b = { tally answers with totalReceived := (tally answers).totalReceived + 1 } := by
        rcases hpoint with rfl | rfl <;> exact h
      subst hb
      change _ = tally (answers ++ [(req, .failed)])
      rw [tally_append]
      simp [Answer.isCreated, resultOf]

theorem Coherent.existing (h : Coherent c) (hpoint : c.point = .lookup req) :
    Coherent (c.existing req jobId now) := by
  obtain ⟨handler, point, answers⟩ := c
  obtain rfl : point = .lookup req := hpoint
  cases handler with
  | submitJob =>
      obtain rfl : answers = [] := h
      exact ⟨req, .existing jobId, now, rfl, rfl⟩
  | submitBatch b =>
      have hb : b = { tally answers with totalReceived := (tally answers).totalReceived + 1 } := h
      subst hb
      change _ = tally (answers ++ [(req, .existing jobId)])
      rw [tally_append]
      simp [Answer.isCreated, resultOf]

theorem Coherent.created (h : Coherent c) (hpoint : c.point = .insert req) :
    Coherent (c.created req jobId) := by
  obtain ⟨handler, point, answers⟩ := c
  obtain rfl : point = .insert req := hpoint
  cases handler with
  | submitJob =>
      obtain rfl : answers = [] := h
      exact ⟨req, rfl, rfl⟩
  | submitBatch b =>
      have hb : b = { tally answers with totalReceived := (tally answers).totalReceived + 1 } := h
      subst hb
      refine ⟨req, answers, rfl, rfl, ?_⟩
      simp [Call.answers_created, tally_append, Answer.isCreated]

theorem Coherent.sent (h : Coherent c) (hpoint : c.point = .send job) :
    Coherent (c.sent job now) := by
  obtain ⟨handler, point, answers⟩ := c
  obtain rfl : point = .send job := hpoint
  cases handler with
  | submitJob =>
      obtain ⟨req, -, hanswers⟩ := h
      exact ⟨req, .created job.id, now, hanswers, rfl⟩
  | submitBatch b =>
      obtain ⟨req, before, hjob, hanswers, hb⟩ := h
      change _ = tally answers
      have hkey : job.req.idempotencyKey = req.idempotencyKey := by
        rw [hjob]
        rfl
      have hlast : (tally answers).results = (tally before).results ++
          [{ jobId := job.id, state := .queued, idempotencyKey := job.req.idempotencyKey,
             message := processedMessage }] := by
        rw [show answers = _ from hanswers, tally_append, hkey]
        rfl
      rw [hb, ← hlast]

theorem Coherent.step {db : Db} {ev : Event} {e : Effect} (h : Coherent c)
    (hstep : Submit.step db c ev = some e) : Coherent e.call := by
  cases steps_of_step hstep with
  | received b received hhandler hpoint =>
      obtain ⟨handler, point, answers⟩ := c
      obtain rfl : handler = .submitBatch b := hhandler
      obtain rfl : point = .recv := hpoint
      obtain rfl : b = tally answers := h
      cases received with
      | request req => exact rfl
      | eof => exact .inr rfl
      | error => exact .inl rfl
  | unanswered req _ _ hpoint _ => exact h.failed (.inl hpoint)
  | found req _ _ hpoint _ => exact h.existing hpoint
  | missed req _ hpoint _ =>
      obtain ⟨handler, point, answers⟩ := c
      obtain rfl : point = .lookup req := hpoint
      cases handler with
      | submitJob => exact h
      | submitBatch b => exact h
  | created req _ _ _ hpoint _ => exact h.created hpoint
  | rejected req _ _ _ hpoint _ => exact h.failed (.inr hpoint)
  | orphaned req _ _ _ hpoint _ => exact h.failed (.inr hpoint)
  | sent job _ hpoint => exact h.sent hpoint

/-- What the caller of a call that has returned was told of its answers. -/
inductive Tells (c : Call) : Prop
  | submitJob (req : JobRequest) (answer : Answer) (now : Time) : c.answers = [(req, answer)] →
      c.point = .returned (replyOf now answer) → Tells c
  | submitBatch (b : BatchResponse) : c.handler = .submitBatch b →
      c.point = .returned (.batch (tally c.answers)) → Tells c
  | brokenOff (b : BatchResponse) : c.handler = .submitBatch b → c.point = .returned .error →
      Tells c

theorem Coherent.tells (h : Coherent c) (hreturned : c.hasReturned = true) : Tells c := by
  unfold Call.hasReturned at hreturned
  cases hpoint : c.point with
  | returned reply =>
      unfold Coherent at h
      rw [hpoint] at h
      cases hhandler : c.handler with
      | submitJob =>
          rw [hhandler] at h
          obtain ⟨req, answer, now, hanswers, rfl⟩ := h
          exact .submitJob req answer now hanswers hpoint
      | submitBatch b =>
          rw [hhandler] at h
          rcases h with rfl | rfl
          · exact .brokenOff b hhandler hpoint
          · exact .submitBatch b hhandler hpoint
  | recv => simp [hpoint] at hreturned
  | lookup => simp [hpoint] at hreturned
  | insert => simp [hpoint] at hreturned
  | send => simp [hpoint] at hreturned

end TrendingPipeline.Etl.Replies
