/- Unit: TrendingPipeline/Etl/Sequence
   source: backend/etl/server.go
   digest: SubmitJob called on one request after the other, and SubmitBatch against it. -/

import TrendingPipeline.Etl.Rerun

set_option autoImplicit false
set_option relaxedAutoImplicit false

namespace TrendingPipeline.Etl.Sequence

open TrendingPipeline.Base.Calendar (Time)
open TrendingPipeline.Base.Runs
open TrendingPipeline.Proto.Messages
open TrendingPipeline.Store.Tables (Db)
open TrendingPipeline.Store.Statements
open TrendingPipeline.Etl.Submit
  (Answer Call Event Received Reply Steps enqueued existsMessage queuedMessage steps_of_step)
open TrendingPipeline.Etl.Replies (Coherent coherent_submitBatch replyOf resultOf tally)
open TrendingPipeline.Etl.Batch (Stage columns received)
open TrendingPipeline.Worker.ProcessJob (Job)

/-- The tables, the request whose SubmitJob call is in progress, what the earlier calls
returned, the ids InsertJob returned and the jobs put on the channel. -/
structure Caller where
  db : Db
  current : Option (JobRequest × Call) := none
  returned : List (JobRequest × Reply) := []
  created : List String := []
  sent : List Job := []

def begin (db : Db) : Caller where
  db := db

inductive Act
  /-- the next request is submitted -/
  | submit (req : JobRequest)
  /-- the next step of the call in progress -/
  | own (ev : Event)
  /-- what the workers make of the tables in the meantime -/
  | workers (db : Db)

/-- After a step of the call. An error does not keep the caller from going on. -/
def Caller.after (q : Caller) (req : JobRequest) (e : Submit.Effect) : Caller :=
  let created := q.created ++ e.created.toList
  let sent := q.sent ++ e.sent.toList
  match e.call.point with
  | .returned reply =>
      { db := e.db, current := none, returned := q.returned ++ [(req, reply)]
        created := created, sent := sent }
  | .recv | .lookup _ | .insert _ | .send _ =>
      { db := e.db, current := some (req, e.call), returned := q.returned
        created := created, sent := sent }

def step (q : Caller) : Act → Option Caller
  | .submit req =>
      match q.current with
      | none => some { q with current := some (req, Call.submitJob req) }
      | some _ => none
  | .own ev =>
      match q.current with
      | none => none
      | some (req, c) => (Submit.step q.db c ev).map (q.after req)
  | .workers db => if columns db = columns q.db then some { q with db := db } else none

/-- The same action in a batch: the stream hands over what is submitted. -/
def Act.inBatch : Act → Batch.Act
  | .submit req => .own (.recv (.request req))
  | .own ev => .own ev
  | .workers db => .workers db

/-- The same action without a stream; its end is no action. -/
def alone : Batch.Act → Option Act
  | .own (.recv (.request req)) => some (.submit req)
  | .own (.recv .eof) | .own (.recv .error) => none
  | .own (.lookup fault now) => some (.own (.lookup fault now))
  | .own (.insert fault jobId now) => some (.own (.insert fault jobId now))
  | .own (.send now) => some (.own (.send now))
  | .workers db => some (.workers db)

def Reply.created : Reply → Bool
  | .job response => response.message = queuedMessage
  | .error | .batch _ => false

def Reply.jobId : Reply → Option String
  | .job response => some response.jobId
  | .error | .batch _ => none

structure Reports (returned : List (JobRequest × Reply)) (b : BatchResponse) : Prop where
  totalReceived : b.totalReceived = Int32.ofNat returned.length
  totalAccepted : b.totalAccepted = Int32.ofNat (returned.countP fun x => Reply.created x.2)
  totalRejected : b.totalRejected = Int32.ofNat (returned.countP fun x => !Reply.created x.2)
  balance : b.totalAccepted + b.totalRejected = b.totalReceived
  results : b.results.map (·.jobId) = returned.filterMap fun x => Reply.jobId x.2
  exact : returned.length < 2 ^ 31 →
    b.totalReceived.toInt = returned.length ∧
      b.totalAccepted.toInt = (returned.countP fun x => Reply.created x.2) ∧
      b.totalRejected.toInt = (returned.countP fun x => !Reply.created x.2)

/-- A batch that came to the same tables and the same sends, and its response. -/
structure SameOutcome (q : Caller) (s : Stage) (b : BatchResponse) : Prop where
  db : s.db = q.db
  created : s.created = q.created
  sent : s.sent = q.sent
  reports : Reports q.returned b

def Told : List (JobRequest × Answer) → List (JobRequest × Reply) → Prop :=
  List.Forall₂ fun x y => y.1 = x.1 ∧ ∃ now, y.2 = replyOf now x.2

def Facing (c : Call) (q : Caller) : Prop :=
  match c.point with
  | .recv | .returned _ => q.current = none ∧ Told c.answers q.returned
  | .lookup req =>
      q.current = some (req, { handler := .submitJob, point := .lookup req }) ∧
        Told c.answers q.returned
  | .insert req =>
      q.current = some (req, { handler := .submitJob, point := .insert req }) ∧
        Told c.answers q.returned
  | .send job =>
      ∃ req before, c.answers = before ++ [(req, .created job.id)] ∧
        q.current = some (req,
          { handler := .submitJob, point := .send job, answers := [(req, .created job.id)] }) ∧
        Told before q.returned

structure Mirrors (s : Stage) (q : Caller) : Prop where
  db : s.db = q.db
  created : s.created = q.created
  sent : s.sent = q.sent
  batch : ∃ b, s.call.handler = .submitBatch b
  facing : Facing s.call q

private theorem mirrors_begin (db : Db) : Mirrors (Batch.begin db) (begin db) where
  db := rfl
  created := rfl
  sent := rfl
  batch := ⟨_, rfl⟩
  facing := ⟨rfl, .nil⟩

theorem Told.append {answers : List (JobRequest × Answer)} {returned : List (JobRequest × Reply)}
    (h : Told answers returned) (req : JobRequest) (answer : Answer) (now : Time) :
    Told (answers ++ [(req, answer)]) (returned ++ [(req, replyOf now answer)]) :=
  List.rel_append h (.cons ⟨rfl, now, rfl⟩ .nil)

section Steps

variable {s t : Stage} {q q' : Caller} {req : JobRequest} {job : Job}

private theorem run_one {a : Act} (h : step q a = some q') : run step q [a] = some q' :=
  run_cons_eq_some.mpr ⟨q', h, rfl⟩

private theorem step_own {c : Call} {ev : Event} {e : Submit.Effect}
    (hcurrent : q.current = some (req, c)) (hstep : Submit.step q.db c ev = some e) :
    step q (.own ev) = some (q.after req e) := by
  simp only [step, hcurrent, hstep, Option.map_some]

theorem Mirrors.answered (h : Mirrors s q) {e : Submit.Effect} {d : Call}
    {before : List (JobRequest × Answer)} (answer : Answer) (now : Time)
    (hreply : e.call.point = .returned (replyOf now answer))
    (hbatch : ∃ b, d.handler = .submitBatch b) (hpoint : d.point = .recv)
    (hanswers : d.answers = before ++ [(req, answer)]) (htold : Told before q.returned) :
    Mirrors
      { db := e.db, call := d, created := s.created ++ e.created.toList
        sent := s.sent ++ e.sent.toList }
      (q.after req e) := by
  unfold Caller.after
  rw [hreply]
  refine ⟨rfl, congrArg (· ++ _) h.created, congrArg (· ++ _) h.sent, hbatch, ?_⟩
  change Facing d _
  unfold Facing
  rw [hpoint, hanswers]
  exact ⟨rfl, htold.append req answer now⟩

/-- The call in progress has an error to return, whichever statement it comes from. -/
theorem Mirrors.failed (h : Mirrors s q) {db : Db} {c : Call} (hhandler : c.handler = .submitJob)
    (htold : Told s.call.answers q.returned) :
    Mirrors { s with db := db, call := s.call.failed req }
      (q.after req { call := c.failed req, db := db }) := by
  obtain ⟨b, hb⟩ := h.batch
  have hreply : (c.failed req).point = .returned (replyOf Time.zero .failed) := by
    rw [Call.failed, hhandler]
    rfl
  have hmirrors := h.answered (e := { call := c.failed req, db := db }) .failed Time.zero hreply
    (d := s.call.failed req) ⟨_, by rw [Call.failed, hb]⟩ (by rw [Call.failed, hb])
    Call.answers_failed htold
  simpa only [Option.toList_none, List.append_nil] using hmirrors

private theorem Mirrors.step_failed (h : Mirrors s q) {db : Db} {c : Call} {ev : Event}
    (hhandler : c.handler = .submitJob) (hcurrent : q.current = some (req, c))
    (htold : Told s.call.answers q.returned)
    (halone : Submit.step q.db c ev = some { call := c.failed req, db := db }) :
    ∃ q', run step q [.own ev] = some q' ∧
      Mirrors
        { db := db, call := s.call.failed req, created := s.created ++ (none : Option String).toList
          sent := s.sent ++ (none : Option Job).toList } q' := by
  simp only [Option.toList_none, List.append_nil]
  exact ⟨_, run_one (step_own hcurrent halone), h.failed hhandler htold⟩

private theorem exec_of_rejected {db : Db} {c : Call} {fault : Fault} {jobId : String} {now : Time}
    (hpoint : c.point = .insert req)
    (hstep : Submit.step db c (.insert fault jobId now) = some { call := c.failed req, db := db }) :
    fault.exec db (insertJob db now jobId req) = (false, db) := by
  simp only [Submit.step, hpoint, Option.some.injEq, Submit.onInsert] at hstep
  cases hexec : fault.exec db (insertJob db now jobId req) with
  | mk ok db' =>
      rw [hexec] at hstep
      cases ok with
      | true => cases congrArg Submit.Effect.created hstep
      | false => exact congrArg (Prod.mk false) (congrArg Submit.Effect.db hstep)

/-- The batch receives a request, for which the sequence makes a call, or the end. -/
private theorem Mirrors.step_received (h : Mirrors s q) {b : BatchResponse}
    (hpoint : s.call.point = .recv) (received : Received) :
    ∃ q', run step q (alone (.own (.recv received))).toList = some q' ∧
      Mirrors { s with call := Submit.onRecv s.call b received } q' := by
  obtain ⟨hdb, hcreated, hsent, ⟨b', hb⟩, hfacing⟩ := id h
  rw [Facing, hpoint] at hfacing
  obtain ⟨hnone, htold⟩ := hfacing
  cases received with
  | request req =>
      refine ⟨{ q with current := some (req, Call.submitJob req) }, run_one ?_,
        hdb, hcreated, hsent, ⟨_, rfl⟩, rfl, htold⟩
      simp only [Sequence.step, hnone]
  | eof => exact ⟨q, rfl, hdb, hcreated, hsent, ⟨b', hb⟩, hnone, htold⟩
  | error => exact ⟨q, rfl, hdb, hcreated, hsent, ⟨b', hb⟩, hnone, htold⟩

private theorem Mirrors.step_created (h : Mirrors s q) {jobId : String} {now : Time} {db : Db}
    (hpoint : s.call.point = .insert req) (hinsert : insertJob s.db now jobId req = some db) :
    ∃ q', run step q [.own (.insert .none jobId now)] = some q' ∧
      Mirrors
        { db := db, call := s.call.created req jobId, created := s.created ++ (some jobId).toList
          sent := s.sent ++ (none : Option Job).toList } q' := by
  obtain ⟨hdb, hcreated, hsent, ⟨b, hb⟩, hfacing⟩ := id h
  rw [Facing, hpoint] at hfacing
  obtain ⟨hcurrent, htold⟩ := hfacing
  let e : Submit.Effect :=
    { call := Call.created ⟨.submitJob, .insert req, []⟩ req jobId, db := db
      created := some jobId }
  refine ⟨q.after req e, run_one (step_own hcurrent ?_), ?_⟩
  · simp only [Submit.step, Submit.onInsert, ← hdb, hinsert, Fault.exec, e]
  · refine ⟨rfl, congrArg (· ++ _) hcreated, congrArg (· ++ _) hsent,
      ⟨_, by rw [Call.created, hb]⟩, ?_⟩
    simp only [Call.created, hb]
    exact ⟨req, s.call.answers, rfl, rfl, htold⟩

theorem Mirrors.step {a : Batch.Act} (h : Mirrors s q) (hstep : Batch.step s a = some t) :
    ∃ q', run step q (alone a).toList = some q' ∧ Mirrors t q' := by
  obtain ⟨hdb, hcreated, hsent, ⟨b, hb⟩, hfacing⟩ := id h
  cases a with
  | workers db =>
      obtain ⟨hcolumns, rfl⟩ := Batch.workers_of_step hstep
      rw [hdb] at hcolumns
      exact ⟨{ q with db := db }, run_one (if_pos hcolumns), rfl, hcreated, hsent, ⟨b, hb⟩,
        hfacing⟩
  | own ev =>
      obtain ⟨e, he, rfl⟩ := Option.map_eq_some_iff.mp hstep
      cases steps_of_step he with
      | received b' received hhandler hpoint =>
          simp only [Option.toList_none, List.append_nil]
          exact h.step_received hpoint received
      | unanswered req fault now hpoint hfault =>
          rw [Facing, hpoint] at hfacing
          obtain ⟨hcurrent, htold⟩ := hfacing
          refine h.step_failed rfl hcurrent htold ?_
          simp only [Submit.step, Submit.onLookup, if_neg hfault, hdb]
      | found req row now hpoint hfound =>
          rw [Facing, hpoint] at hfacing
          obtain ⟨hcurrent, htold⟩ := hfacing
          let e : Submit.Effect :=
            { call := Call.existing ⟨.submitJob, .lookup req, []⟩ req row.jobId now
              db := s.db }
          refine ⟨q.after req e, run_one (step_own hcurrent ?_), ?_⟩
          · simp only [Submit.step, Submit.onLookup, ← hdb, hfound, if_true, e]
          · exact h.answered (e := e) (d := s.call.existing req row.jobId now)
              (.existing row.jobId) now rfl ⟨_, by rw [Call.existing, hb]⟩
              (by rw [Call.existing, hb]) Call.answers_existing htold
      | missed req now hpoint hmissed =>
          rw [Facing, hpoint] at hfacing
          obtain ⟨hcurrent, htold⟩ := hfacing
          simp only [Option.toList_none, List.append_nil]
          let e : Submit.Effect :=
            { call := ⟨.submitJob, .insert req, []⟩, db := s.db }
          refine ⟨q.after req e, run_one (step_own hcurrent ?_), ?_⟩
          · simp only [Submit.step, Submit.onLookup, ← hdb, hmissed, if_true, e]
          · exact ⟨rfl, hcreated.trans (List.append_nil _).symm,
              hsent.trans (List.append_nil _).symm, ⟨b, hb⟩, rfl, htold⟩
      | created req jobId now db' hpoint hinsert =>
          exact h.step_created hpoint hinsert
      | rejected req fault jobId now hpoint hrefused =>
          rw [Facing, hpoint] at hfacing
          obtain ⟨hcurrent, htold⟩ := hfacing
          refine h.step_failed rfl hcurrent htold ?_
          have hexec := exec_of_rejected hpoint he
          rw [hdb] at hexec ⊢
          simp only [Submit.step, Submit.onInsert, hexec]
      | orphaned req jobId now db' hpoint hinsert =>
          rw [Facing, hpoint] at hfacing
          obtain ⟨hcurrent, htold⟩ := hfacing
          refine h.step_failed rfl hcurrent htold ?_
          simp only [Submit.step, Submit.onInsert, ← hdb, hinsert, Fault.exec]
      | sent job now hpoint =>
          rw [Facing, hpoint] at hfacing
          obtain ⟨req, before, hanswers, hcurrent, htold⟩ := hfacing
          let e : Submit.Effect :=
            { call := Call.sent ⟨.submitJob, .send job, [(req, .created job.id)]⟩ job now
              db := s.db
              sent := some job }
          refine ⟨q.after req e, run_one (step_own hcurrent ?_), ?_⟩
          · simp only [Submit.step, ← hdb, e]
          · exact h.answered (e := e) (d := s.call.sent job now) (.created job.id) now rfl
              ⟨_, by rw [Call.sent, hb]⟩
              (by rw [Call.sent, hb]) (Call.answers_sent.trans hanswers) htold

private theorem step_isSome_of_point {db : Db} {c d : Call} {ev : Event} {e : Submit.Effect}
    (hpoint : d.point = c.point) (hrecv : ∀ received, ev ≠ .recv received)
    (hstep : Submit.step db c ev = some e) : (Submit.step db d ev).isSome := by
  cases ev with
  | recv received => exact absurd rfl (hrecv received)
  | lookup fault now =>
      simp only [Submit.step, hpoint] at hstep ⊢
      split at hstep
      · rfl
      · cases hstep
  | insert fault jobId now =>
      simp only [Submit.step, hpoint] at hstep ⊢
      split at hstep
      · rfl
      · cases hstep
  | send now =>
      simp only [Submit.step, hpoint] at hstep ⊢
      split at hstep
      · rfl
      · cases hstep

private theorem Mirrors.point_of_current (h : Mirrors s q) {c : Call}
    (hcurrent : q.current = some (req, c)) :
    c.handler = .submitJob ∧ s.call.point = c.point := by
  have hfacing := h.facing
  unfold Facing at hfacing
  cases hpoint : s.call.point with
  | recv =>
      rw [hpoint] at hfacing
      rw [hfacing.1] at hcurrent
      cases hcurrent
  | returned reply =>
      rw [hpoint] at hfacing
      rw [hfacing.1] at hcurrent
      cases hcurrent
  | lookup req' =>
      rw [hpoint] at hfacing
      rw [hfacing.1] at hcurrent
      cases hcurrent
      exact ⟨rfl, rfl⟩
  | insert req' =>
      rw [hpoint] at hfacing
      rw [hfacing.1] at hcurrent
      cases hcurrent
      exact ⟨rfl, rfl⟩
  | send job =>
      rw [hpoint] at hfacing
      obtain ⟨_, _, _, hsending, _⟩ := hfacing
      rw [hsending] at hcurrent
      cases hcurrent
      exact ⟨rfl, rfl⟩

/-- The sequence is between two calls, so the batch is between two requests, or over. -/
private theorem Mirrors.point_of_idle (h : Mirrors s q) (hidle : q.current = none) :
    s.call.point = .recv ∨ ∃ reply, s.call.point = .returned reply := by
  have hfacing := h.facing
  unfold Facing at hfacing
  cases hpoint : s.call.point with
  | recv => exact .inl rfl
  | returned reply => exact .inr ⟨reply, rfl⟩
  | lookup req =>
      rw [hpoint] at hfacing
      rw [hfacing.1] at hidle
      cases hidle
  | insert req =>
      rw [hpoint] at hfacing
      rw [hfacing.1] at hidle
      cases hidle
  | send job =>
      rw [hpoint] at hfacing
      obtain ⟨_, _, _, hsending, _⟩ := hfacing
      rw [hsending] at hidle
      cases hidle

private theorem open_of_step {a : Batch.Act} (hbatch : ∃ b, s.call.handler = .submitBatch b)
    (hopen : s.call.hasReturned = false) (ha : (alone a).isSome) (hstep : Batch.step s a = some t) :
    t.call.hasReturned = false := by
  obtain ⟨b, hb⟩ := hbatch
  cases a with
  | workers db =>
      obtain ⟨-, rfl⟩ := Batch.workers_of_step hstep
      exact hopen
  | own ev =>
      obtain ⟨e, he, rfl⟩ := Option.map_eq_some_iff.mp hstep
      cases steps_of_step he with
      | received b' received hhandler hpoint =>
          cases received with
          | request req => rfl
          | eof => cases ha
          | error => cases ha
      | unanswered => simp only [Call.failed, hb, Call.hasReturned]
      | found => simp only [Call.existing, hb, Call.hasReturned]
      | missed => rfl
      | created => simp only [Call.created, hb, Call.hasReturned]
      | rejected => simp only [Call.failed, hb, Call.hasReturned]
      | orphaned => simp only [Call.failed, hb, Call.hasReturned]
      | sent => simp only [Call.sent, hb, Call.hasReturned]

private theorem Mirrors.enabled {a : Act} (h : Mirrors s q) (hopen : s.call.hasReturned = false)
    (hstep : Sequence.step q a = some q') :
    alone a.inBatch = some a ∧ ∃ t, Batch.step s a.inBatch = some t := by
  obtain ⟨b, hb⟩ := h.batch
  cases a with
  | submit req =>
      refine ⟨rfl, ?_⟩
      simp only [Sequence.step] at hstep
      split at hstep
      · rcases h.point_of_idle ‹_› with hpoint | ⟨reply, hpoint⟩
        · simp only [Act.inBatch, Batch.step, Submit.step, hb, hpoint, Option.map_some]
          exact ⟨_, rfl⟩
        · rw [Call.hasReturned, hpoint] at hopen
          cases hopen
      · cases hstep
  | own ev =>
      simp only [Sequence.step] at hstep
      split at hstep
      · cases hstep
      · rename_i req c hcurrent
        obtain ⟨e, he, -⟩ := Option.map_eq_some_iff.mp hstep
        obtain ⟨hhandler, hpoint⟩ := h.point_of_current hcurrent
        have hrecv : ∀ received, ev ≠ .recv received := by
          rintro received rfl
          simp only [Submit.step, hhandler] at he
          cases he
        rw [← h.db] at he
        obtain ⟨e', he'⟩ := Option.isSome_iff_exists.mp (step_isSome_of_point hpoint hrecv he)
        refine ⟨?_, _, Option.map_eq_some_iff.mpr ⟨e', he', rfl⟩⟩
        cases ev with
        | recv received => exact absurd rfl (hrecv received)
        | lookup fault now => rfl
        | insert fault jobId now => rfl
        | send now => rfl
  | workers db =>
      refine ⟨rfl, ?_⟩
      simp only [Sequence.step, ← h.db] at hstep
      split at hstep
      · exact ⟨{ s with db := db }, if_pos ‹_›⟩
      · cases hstep

private theorem Mirrors.step_inBatch {a : Act} (h : Mirrors s q)
    (hopen : s.call.hasReturned = false)
    (hstep : Sequence.step q a = some q') :
    ∃ t, Batch.step s a.inBatch = some t ∧ Mirrors t q' ∧ t.call.hasReturned = false := by
  obtain ⟨halone, t, ht⟩ := h.enabled hopen hstep
  obtain ⟨q'', hrun, hmirrors⟩ := h.step ht
  rw [halone, Option.toList_some] at hrun
  obtain rfl : q' = q'' := Option.some.inj ((run_one hstep).symm.trans hrun)
  exact ⟨t, ht, hmirrors, open_of_step h.batch hopen (by rw [halone]; rfl) ht⟩

end Steps

section Reports

variable {answers : List (JobRequest × Answer)} {returned : List (JobRequest × Reply)}

private theorem created_replyOf (now : Time) (answer : Answer) :
    Reply.created (replyOf now answer) = Replies.Answer.isCreated answer := by
  have hmessages : existsMessage ≠ queuedMessage := by decide
  cases answer with
  | failed => rfl
  | existing jobId => exact decide_eq_false hmessages
  | created jobId => exact decide_eq_true (p := queuedMessage = queuedMessage) rfl

theorem Told.requests (h : Told answers returned) :
    returned.map Prod.fst = answers.map Prod.fst := by
  induction h with
  | nil => rfl
  | cons hxy _ ih => rw [List.map_cons, List.map_cons, hxy.1, ih]

theorem Told.countP (h : Told answers returned) (p : Bool → Bool) :
    returned.countP (fun x => p (Reply.created x.2)) =
      answers.countP fun x => p (Replies.Answer.isCreated x.2) := by
  induction h with
  | nil => rfl
  | cons hxy _ ih =>
      obtain ⟨-, now, hreply⟩ := hxy
      rw [List.countP_cons, List.countP_cons, hreply, created_replyOf, ih]

private theorem Told.jobIds (h : Told answers returned) :
    (answers.filterMap resultOf).map (·.jobId) = returned.filterMap fun x => Reply.jobId x.2 := by
  induction h with
  | nil => rfl
  | @cons x y _ _ hxy _ ih =>
      obtain ⟨req, answer⟩ := x
      obtain ⟨-, now, hreply⟩ := hxy
      rw [List.filterMap_cons, List.filterMap_cons, hreply, ← ih]
      cases answer <;> rfl

private theorem Told.reports (h : Told answers returned) : Reports returned (tally answers) where
  totalReceived := congrArg Int32.ofNat (List.Forall₂.length_eq h)
  totalAccepted := congrArg Int32.ofNat (h.countP id).symm
  totalRejected := congrArg Int32.ofNat (h.countP not).symm
  balance := by
    rw [tally, ← Int32.ofNat_add, List.length_eq_countP_add_countP fun x =>
      Replies.Answer.isCreated x.2]
    simp
  results := h.jobIds
  exact hlt := by
    have hfits : ∀ p : JobRequest × Reply → Bool,
        (Int32.ofNat (returned.countP p)).toInt = returned.countP p := fun p =>
      Int32.toInt_ofNat_of_lt ((List.countP_le_length).trans_lt hlt)
    have hlength : (tally answers).totalReceived = Int32.ofNat returned.length :=
      congrArg Int32.ofNat (List.Forall₂.length_eq h)
    have haccepted : (tally answers).totalAccepted =
        Int32.ofNat (returned.countP fun x => Reply.created x.2) :=
      congrArg Int32.ofNat (h.countP id).symm
    have hrejected : (tally answers).totalRejected =
        Int32.ofNat (returned.countP fun x => !Reply.created x.2) :=
      congrArg Int32.ofNat (h.countP not).symm
    rw [hlength, haccepted, hrejected]
    exact ⟨Int32.toInt_ofNat_of_lt hlt, hfits _, hfits _⟩

end Reports

/-- A batch that got to the end of its stream, and a sequence without a call in progress. -/
private theorem Mirrors.sameOutcome {s : Stage} {q : Caller} {b : BatchResponse} (h : Mirrors s q)
    (hcoherent : Coherent s.call) (hreturned : s.call.point = .returned (.batch b)) :
    q.current = none ∧ q.returned.map Prod.fst = s.call.answers.map Prod.fst ∧
      SameOutcome q s b := by
  have hfacing := h.facing
  unfold Facing at hfacing
  rw [hreturned] at hfacing
  obtain ⟨hidle, htold⟩ := hfacing
  obtain ⟨b', hb'⟩ := h.batch
  unfold Coherent at hcoherent
  rw [hb', hreturned] at hcoherent
  have hb : b = tally s.call.answers := by
    rcases hcoherent with herror | hbatch
    · cases herror
    · exact Submit.Reply.batch.inj hbatch
  subst hb
  exact ⟨hidle, htold.requests, h.db, h.created, h.sent, htold.reports⟩

private theorem coherent_of_run {db : Db} {acts : List Batch.Act} {s : Stage}
    (hrun : run Batch.step (Batch.begin db) acts = some s) : Coherent s.call := by
  refine run_invariant (I := fun s : Stage => Coherent s.call) ?_ coherent_submitBatch
    (meets_true _ acts) hrun
  intro s a t hcoherent _ hstep
  cases a with
  | workers db =>
      obtain ⟨-, rfl⟩ := Batch.workers_of_step hstep
      exact hcoherent
  | own ev =>
      obtain ⟨e, he, rfl⟩ := Option.map_eq_some_iff.mp hstep
      exact hcoherent.step he

private theorem answered_of_run {db : Db} {acts : List Batch.Act} {s : Stage}
    (hrun : run Batch.step (Batch.begin db) acts = some s) (hasking : s.call.asking = none) :
    s.call.answers.map Prod.fst = received acts := by
  have hasked := Batch.asked_run hrun
  rw [Batch.asked, hasking, Option.toList_none, List.append_nil] at hasked
  exact hasked

/-- Whatever the database answers, and whatever the workers write meanwhile: with each
sequence of calls a batch on the same requests comes to the same tables and the same sends,
and with each batch such a sequence. -/
theorem submitBatch_refines (db : Db) :
    (∀ acts q, run step (begin db) acts = some q → q.current = none →
      ∃ s b, run Batch.step (Batch.begin db)
            (acts.map Act.inBatch ++ [.own (.recv .eof)]) = some s ∧
          s.call.point = .returned (.batch b) ∧
          received (acts.map Act.inBatch) = q.returned.map Prod.fst ∧ SameOutcome q s b) ∧
    ∀ acts s b, run Batch.step (Batch.begin db) acts = some s →
      s.call.point = .returned (.batch b) →
      ∃ q, run step (begin db) (acts.filterMap alone) = some q ∧ q.current = none ∧
        received acts = q.returned.map Prod.fst ∧ SameOutcome q s b := by
  constructor
  · intro acts q hrun hidle
    have hstart : Mirrors (Batch.begin db) (begin db) ∧
        (Batch.begin db).call.hasReturned = false := ⟨mirrors_begin db, rfl⟩
    obtain ⟨s, hbatch, hmirrors, hopen⟩ :=
      run_simulated (R := fun q s => Mirrors s q ∧ s.call.hasReturned = false)
        (some ∘ Act.inBatch)
        (fun q a q' s hR hstep => by
          obtain ⟨t, ht, hmirrors, hopen⟩ := hR.1.step_inBatch hR.2 hstep
          exact ⟨t, run_cons_eq_some.mpr ⟨t, ht, rfl⟩, hmirrors, hopen⟩)
        hstart hrun
    rw [List.filterMap_eq_map] at hbatch
    have hpoint : s.call.point = .recv := by
      refine (hmirrors.point_of_idle hidle).resolve_right ?_
      rintro ⟨reply, hreturned⟩
      rw [Call.hasReturned, hreturned] at hopen
      cases hopen
    obtain ⟨b, hb⟩ := hmirrors.batch
    -- the stream ends, and the batch returns what it has counted
    let closed : Stage := { s with call := { s.call with point := .returned (.batch b) } }
    have hclose : Batch.step s (.own (.recv .eof)) = some closed := by
      simp [Batch.step, Submit.step, Submit.onRecv, hb, hpoint, closed]
    have hall : run Batch.step (Batch.begin db) (acts.map Act.inBatch ++ [.own (.recv .eof)]) =
        some closed :=
      (run_append hbatch).trans (run_cons_eq_some.mpr ⟨closed, hclose, rfl⟩)
    have hmirrors' : Mirrors closed q := by
      have hfacing := hmirrors.facing
      unfold Facing at hfacing
      rw [hpoint] at hfacing
      exact ⟨hmirrors.db, hmirrors.created, hmirrors.sent, ⟨b, hb⟩, hfacing⟩
    obtain ⟨-, hrequests, houtcome⟩ := hmirrors'.sameOutcome (coherent_of_run hall) rfl
    refine ⟨closed, b, hall, rfl, ?_, houtcome⟩
    rw [hrequests]
    exact (answered_of_run hbatch (by rw [Call.asking, hpoint])).symm
  · intro acts s b hrun hreturned
    obtain ⟨q, hq, hmirrors⟩ :=
      run_simulated alone (fun _ _ _ _ h hstep => Mirrors.step h hstep) (mirrors_begin db) hrun
    obtain ⟨hidle, hrequests, houtcome⟩ := hmirrors.sameOutcome (coherent_of_run hrun) hreturned
    refine ⟨q, hq, hidle, ?_, houtcome⟩
    rw [hrequests]
    exact (answered_of_run hrun (by rw [Call.asking, hreturned])).symm

/-- The second call's lookup fails, and the third one's key has a row. -/
def cronCalls : List Act :=
  [.submit (Rerun.cronRequest "US"), .own (.lookup .none Time.zero),
    .own (.insert .none "job-1" Time.zero), .own (.send Time.zero),
    .submit (Rerun.cronRequest "GB"), .own (.lookup .lost Time.zero),
    .submit (Rerun.cronRequest "US"), .own (.lookup .none Time.zero)]

def afterCalls : Caller := (run step (begin .empty) cronCalls).getD (begin .empty)

theorem submitBatch_refines_cron :
    ∃ s b, run Batch.step (Batch.begin .empty)
          (cronCalls.map Act.inBatch ++ [.own (.recv .eof)]) = some s ∧
        s.call.point = .returned (.batch b) ∧
        received (cronCalls.map Act.inBatch) = afterCalls.returned.map Prod.fst ∧
        SameOutcome afterCalls s b :=
  (submitBatch_refines .empty).1 cronCalls afterCalls rfl rfl

/-- After `2 ^ 31` requests `total_received` is negative. -/
theorem longBatch_miscounts :
    ∃ acts s b, run Batch.step (Batch.begin .empty) acts = some s ∧
      s.call.point = .returned (.batch b) ∧ (received acts).length = 2 ^ 31 ∧
      b.totalReceived.toInt = -2 ^ 31 := by
  obtain ⟨acts, s, b, hrun⟩ := Batch.exists_healthyRun .empty (Rerun.numberedBatch (2 ^ 31))
  have hlength : (received acts).length = 2 ^ 31 := by
    rw [hrun.received, Rerun.numberedBatch, List.length_map, List.length_range]
  have hreceived : b.totalReceived = Int32.ofNat (2 ^ 31) := by
    rw [hrun.response, tally, ← hlength, ← hrun.toRun.answered, List.length_map]
  refine ⟨acts, s, b, hrun.run, hrun.returned, hlength, ?_⟩
  rw [hreceived]
  decide

end TrendingPipeline.Etl.Sequence
