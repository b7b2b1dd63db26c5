/- Unit: TrendingPipeline/Etl/Batch
   source: backend/etl/server.go
   digest: One SubmitBatch call while the workers write, and what it has done at each point. -/

import TrendingPipeline.Base.Runs
import TrendingPipeline.Etl.Replies

set_option autoImplicit false
set_option relaxedAutoImplicit false

namespace TrendingPipeline.Etl.Batch

open TrendingPipeline.Base.Runs
open TrendingPipeline.Proto.Messages
open TrendingPipeline.Store.Tables (Db JobRow JobsTable)
open TrendingPipeline.Store.Statements
open TrendingPipeline.Etl.Submit (Answer Call Event Received Steps onRecv steps_of_step)
open TrendingPipeline.Etl.Replies (Coherent coherent_submitBatch)
open TrendingPipeline.Worker.ProcessJob (Job)

/-- The tables, the call, the ids InsertJob returned to it and the jobs it put on the
channel, both in order. -/
structure Stage where
  db : Db
  call : Call
  created : List String := []
  sent : List Job := []

def begin (db : Db) : Stage where
  db := db
  call := Call.submitBatch

/-- The columns of `jobs` that are written once. -/
def columns (db : Db) : List (String × String) :=
  db.jobs.rows.map fun r => (r.jobId, r.idempotencyKey)

inductive Act
  /-- the next step of the call -/
  | own (ev : Event)
  /-- what the workers make of the tables in the meantime -/
  | workers (db : Db)

def step (s : Stage) : Act → Option Stage
  | .own ev =>
      (Submit.step s.db s.call ev).map fun e =>
        { db := e.db
          call := e.call
          created := s.created ++ e.created.toList
          sent := s.sent ++ e.sent.toList }
  | .workers db => if columns db = columns s.db then some { s with db := db } else none

def Act.request : Act → Option JobRequest
  | .own (.recv (.request req)) => some req
  | .own (.recv .eof) | .own (.recv .error) | .own (.lookup _ _) | .own (.insert _ _ _)
  | .own (.send _) | .workers _ => none

theorem workers_of_step {s t : Stage} {db : Db} (h : step s (.workers db) = some t) :
    columns db = columns s.db ∧ t = { s with db := db } := by
  simp only [step] at h
  split at h
  · exact ⟨‹_›, (Option.some.inj h).symm⟩
  · cases h

def received (acts : List Act) : List JobRequest := acts.filterMap Act.request

def Act.fault : Act → Fault
  | .own (.lookup fault _) | .own (.insert fault _ _) => fault
  | .own (.recv _) | .own (.send _) | .workers _ => .none

def Effectless (_ : Stage) (a : Act) : Prop := a.fault ≠ .applied

/-- The id `uuid.New` gives is in no row. -/
def FreshId (s : Stage) : Act → Prop
  | .own (.insert _ jobId _) => s.db.jobs.byId jobId = none
  | .own (.recv _) | .own (.lookup _ _) | .own (.send _) | .workers _ => True

def Healthy (s : Stage) (a : Act) : Prop := a.fault = .none ∧ FreshId s a

instance (s : Stage) (a : Act) : Decidable (Effectless s a) :=
  inferInstanceAs (Decidable (a.fault ≠ .applied))

instance FreshId.decidable (s : Stage) : ∀ a, Decidable (FreshId s a)
  | .own (.insert _ jobId _) => inferInstanceAs (Decidable (s.db.jobs.byId jobId = none))
  | .own (.recv _) | .own (.lookup _ _) | .own (.send _) | .workers _ => isTrue trivial

instance (s : Stage) (a : Act) : Decidable (Healthy s a) :=
  inferInstanceAs (Decidable (a.fault = .none ∧ FreshId s a))

theorem Healthy.effectless {s : Stage} {a : Act} (h : Healthy s a) : Effectless s a := by
  unfold Effectless
  rw [h.1]
  decide

def createdRow : JobRequest × Answer → Option (String × String)
  | (req, .created jobId) => some (jobId, req.idempotencyKey)
  | (_, .existing _) | (_, .failed) => none

/-- Those of all rows made, in order. -/
def createdRows (answers : List (JobRequest × Answer)) : List (String × String) :=
  answers.filterMap createdRow

private theorem createdRows_append (answers : List (JobRequest × Answer))
    (x : JobRequest × Answer) :
    createdRows (answers ++ [x]) = createdRows answers ++ (createdRow x).toList := by
  rw [createdRows, List.filterMap_append]
  congr 1

/-- The call since it came in, with the tables as they were then. -/
structure Tracked (start : Db) (s : Stage) : Prop where
  batch : ∃ b, s.call.handler = .submitBatch b
  coherent : Coherent s.call
  rows : columns s.db = (createdRows s.call.answers).reverse ++ columns start
  created : s.created = (createdRows s.call.answers).map Prod.fst
  sent : s.sent.map (·.id) ++ (s.call.holding.map (·.id)).toList = s.created
  existing : ∀ req jobId, (req, Answer.existing jobId) ∈ s.call.answers →
    (jobId, req.idempotencyKey) ∈ columns s.db
  absent : ∀ req, s.call.inserting = some req →
    req.idempotencyKey ∉ (columns s.db).map Prod.snd

private theorem tracked_begin (db : Db) : Tracked db (begin db) where
  batch := ⟨_, rfl⟩
  coherent := coherent_submitBatch
  rows := rfl
  created := rfl
  sent := rfl
  existing _ _ h := absurd h List.not_mem_nil
  absent _ h := by cases h

section Steps

variable {start : Db} {s t : Stage} {c d : Call} {db : Db} {req : JobRequest} {jobId : String}

private theorem mem_columns_of_byKey {row : JobRow}
    (h : getJobByIdempotencyKey db req.idempotencyKey = some row) :
    (row.jobId, req.idempotencyKey) ∈ columns db := by
  obtain ⟨hmem, hkey⟩ := JobsTable.byKey_eq_some_iff.mp h
  exact List.mem_map.mpr ⟨row, hmem, by rw [hkey]⟩

private theorem not_mem_keys_iff (db : Db) (key : String) :
    key ∉ (columns db).map Prod.snd ↔ getJobByIdempotencyKey db key = none := by
  rw [getJobByIdempotencyKey, JobsTable.byKey_eq_none_iff, columns, List.map_map]
  rfl

private theorem columns_insertJob {db' : Db} {now : Base.Calendar.Time}
    (h : insertJob db now jobId req = some db') :
    columns db' = (jobId, req.idempotencyKey) :: columns db := by
  rw [columns, JobsTable.rows_insert (insertJob_jobs h)]
  rfl

theorem Tracked.answered (h : Tracked start s) {answer : Answer}
    (hbatch : ∃ b, d.handler = .submitBatch b) (hcoherent : Coherent d)
    (hheld : s.call.holding = none) (hanswers : d.answers = s.call.answers ++ [(req, answer)])
    (hholding : d.holding = none) (hinserting : d.inserting = none)
    (hnone : createdRow (req, answer) = none)
    (hexisting : ∀ jobId, answer = .existing jobId → (jobId, req.idempotencyKey) ∈ columns s.db) :
    Tracked start { s with call := d } where
  batch := hbatch
  coherent := hcoherent
  rows := by
    rw [hanswers, createdRows_append, hnone, Option.toList_none, List.append_nil]
    exact h.rows
  created := by
    rw [hanswers, createdRows_append, hnone, Option.toList_none, List.append_nil]
    exact h.created
  sent := by
    have hsent := h.sent
    rw [hheld] at hsent
    rw [hholding]
    exact hsent
  existing req' jobId' hmem := by
    rw [hanswers] at hmem
    rcases List.mem_append.mp hmem with hmem | hmem
    · exact h.existing req' jobId' hmem
    · obtain ⟨rfl, hanswer⟩ := Prod.mk.inj (List.mem_singleton.mp hmem)
      exact hexisting jobId' hanswer.symm
  absent req' hreq := by
    rw [hinserting] at hreq
    cases hreq

private theorem Tracked.sent_of_free (h : Tracked start s) (hfree : s.call.holding = none) :
    s.sent.map (·.id) = s.created := by
  have hsent := h.sent
  rwa [hfree, Option.map_none, Option.toList_none, List.append_nil] at hsent

theorem Tracked.failed (h : Tracked start s) (hcoherent : Coherent (s.call.failed req))
    (hheld : s.call.holding = none) : Tracked start { s with call := s.call.failed req } := by
  obtain ⟨b, hb⟩ := h.batch
  exact h.answered ⟨_, by rw [Call.failed, hb]⟩ hcoherent hheld Call.answers_failed
    Call.holding_failed Call.inserting_failed rfl nofun

theorem Tracked.received (h : Tracked start s) {b : BatchResponse} {received : Received}
    (hcoherent : Coherent (onRecv s.call b received)) (hhandler : s.call.handler = .submitBatch b)
    (hheld : s.call.holding = none) :
    Tracked start { s with call := onRecv s.call b received } where
  batch := by
    cases received with
    | request req => exact ⟨_, rfl⟩
    | eof => exact ⟨b, hhandler⟩
    | error => exact ⟨b, hhandler⟩
  coherent := hcoherent
  rows := by
    rw [Call.answers_onRecv]
    exact h.rows
  created := by
    rw [Call.answers_onRecv]
    exact h.created
  sent := by
    rw [Call.holding_onRecv, Option.map_none, Option.toList_none, List.append_nil]
    exact h.sent_of_free hheld
  existing := by
    rw [Call.answers_onRecv]
    exact h.existing
  absent req hreq := by
    rw [Call.inserting_onRecv] at hreq
    cases hreq

theorem Tracked.missed (h : Tracked start s)
    (hcoherent : Coherent { s.call with point := .insert req }) (hheld : s.call.holding = none)
    (hmissed : getJobByIdempotencyKey s.db req.idempotencyKey = none) :
    Tracked start { s with call := { s.call with point := .insert req } } where
  batch := h.batch
  coherent := hcoherent
  rows := h.rows
  created := h.created
  sent := by
    have hsent := h.sent
    rw [hheld] at hsent
    exact hsent
  existing := h.existing
  absent req' hreq := by
    obtain rfl : req = req' := Option.some.inj hreq
    exact (not_mem_keys_iff s.db req.idempotencyKey).mpr hmissed

theorem Tracked.inserted (h : Tracked start s) {now : Base.Calendar.Time}
    (hcoherent : Coherent (s.call.created req jobId)) (hheld : s.call.holding = none)
    (hinsert : insertJob s.db now jobId req = some db) :
    Tracked start
      { s with db := db, call := s.call.created req jobId, created := s.created ++ [jobId] } where
  batch := by
    obtain ⟨b, hb⟩ := h.batch
    exact ⟨_, by rw [Call.created, hb]⟩
  coherent := hcoherent
  rows := by
    have hrow : createdRow (req, Answer.created jobId) = some (jobId, req.idempotencyKey) := rfl
    rw [columns_insertJob hinsert, h.rows, Call.answers_created, createdRows_append, hrow,
      Option.toList_some, List.reverse_append]
    rfl
  created := by
    rw [Call.answers_created, createdRows_append, List.map_append, h.created]
    rfl
  sent := by
    rw [Call.holding_created, h.sent_of_free hheld]
    rfl
  existing req' jobId' hmem := by
    rw [Call.answers_created] at hmem
    rcases List.mem_append.mp hmem with hmem | hmem
    · rw [columns_insertJob hinsert]
      exact List.mem_cons_of_mem _ (h.existing req' jobId' hmem)
    · cases (Prod.mk.inj (List.mem_singleton.mp hmem)).2
  absent req' hreq := by
    rw [Call.inserting_created] at hreq
    cases hreq

private theorem Tracked.putOn (h : Tracked start s) {job : Job} {now : Base.Calendar.Time}
    (hcoherent : Coherent (s.call.sent job now)) (hheld : s.call.holding = some job) :
    Tracked start { s with call := s.call.sent job now, sent := s.sent ++ [job] } where
  batch := by
    obtain ⟨b, hb⟩ := h.batch
    exact ⟨_, by rw [Call.sent, hb]⟩
  coherent := hcoherent
  rows := by
    rw [Call.answers_sent]
    exact h.rows
  created := by
    rw [Call.answers_sent]
    exact h.created
  sent := by
    have hsent := h.sent
    rw [hheld] at hsent
    rw [Call.holding_sent, List.map_append, Option.map_none, Option.toList_none, List.append_nil]
    exact hsent
  existing := by
    rw [Call.answers_sent]
    exact h.existing
  absent req hreq := by
    rw [Call.inserting_sent] at hreq
    cases hreq

theorem Tracked.own (h : Tracked start s) {ev : Event} {e : Submit.Effect}
    (heffectless : Effectless s (.own ev)) (hstep : Submit.step s.db s.call ev = some e) :
    Tracked start
      { db := e.db
        call := e.call
        created := s.created ++ e.created.toList
        sent := s.sent ++ e.sent.toList } := by
  have hcoherent := h.coherent.step hstep
  cases steps_of_step hstep with
  | received b received hhandler hpoint =>
      simp only [Option.toList_none, List.append_nil]
      exact h.received hcoherent hhandler (by rw [Call.holding, hpoint])
  | unanswered req fault now hpoint hfault =>
      simp only [Option.toList_none, List.append_nil]
      exact h.failed hcoherent (by rw [Call.holding, hpoint])
  | found req row now hpoint hfound =>
      simp only [Option.toList_none, List.append_nil]
      obtain ⟨b, hb⟩ := h.batch
      refine h.answered ⟨_, by rw [Call.existing, hb]⟩ hcoherent (by rw [Call.holding, hpoint])
        Call.answers_existing Call.holding_existing Call.inserting_existing rfl ?_
      rintro jobId heq
      obtain rfl := Answer.existing.inj heq
      exact mem_columns_of_byKey hfound
  | missed req now hpoint hmissed =>
      simp only [Option.toList_none, List.append_nil]
      exact h.missed hcoherent (by rw [Call.holding, hpoint]) hmissed
  | created req jobId now db' hpoint hinsert =>
      simp only [Option.toList_none, List.append_nil]
      exact h.inserted hcoherent (by rw [Call.holding, hpoint]) hinsert
  | rejected req fault jobId now hpoint hrefused =>
      simp only [Option.toList_none, List.append_nil]
      exact h.failed hcoherent (by rw [Call.holding, hpoint])
  | orphaned req jobId now db' hpoint hinsert => exact absurd rfl heffectless
  | sent job now hpoint =>
      simp only [Option.toList_none, List.append_nil]
      exact h.putOn hcoherent (by rw [Call.holding, hpoint])

theorem Tracked.step {a : Act} (h : Tracked start s) (heffectless : Effectless s a)
    (hstep : step s a = some t) : Tracked start t := by
  cases a with
  | own ev =>
      obtain ⟨e, he, rfl⟩ := Option.map_eq_some_iff.mp hstep
      exact h.own heffectless he
  | workers db =>
      obtain ⟨hcolumns, rfl⟩ := workers_of_step hstep
      refine ⟨h.batch, h.coherent, hcolumns.trans h.rows, h.created, h.sent, ?_, ?_⟩
      · rw [hcolumns]
        exact h.existing
      · rw [hcolumns]
        exact h.absent

/-- The requests the call has received: those it has answered and the one at hand. -/
def asked (c : Call) : List JobRequest := c.answers.map Prod.fst ++ c.asking.toList

private theorem asked_answered {answer : Answer} (hasking : c.asking = some req)
    (hanswers : d.answers = c.answers ++ [(req, answer)]) (hidle : d.asking = none) :
    asked d = asked c := by
  rw [asked, asked, hanswers, hidle, hasking, List.map_append]
  simp

theorem asked_own {ev : Event} {e : Submit.Effect} (he : Submit.step db c ev = some e) :
    asked e.call = asked c ++ (Act.request (.own ev)).toList := by
  cases steps_of_step he with
  | received b received hhandler hpoint =>
      cases received with
      | request req => simp [asked, onRecv, Call.asking, hpoint, Act.request]
      | eof => simp [asked, onRecv, Call.asking, hpoint, Act.request]
      | error => simp [asked, onRecv, Call.asking, hpoint, Act.request]
  | unanswered req fault now hpoint hfault =>
      exact (asked_answered (by rw [Call.asking, hpoint]) Call.answers_failed
        Call.asking_failed).trans (List.append_nil _).symm
  | found req row now hpoint hfound =>
      exact (asked_answered (by rw [Call.asking, hpoint]) Call.answers_existing
        Call.asking_existing).trans (List.append_nil _).symm
  | missed req now hpoint hmissed =>
      simp [asked, Call.asking, hpoint, Act.request]
  | created req jobId now db' hpoint hinsert =>
      exact (asked_answered (by rw [Call.asking, hpoint]) Call.answers_created
        Call.asking_created).trans (List.append_nil _).symm
  | rejected req fault jobId now hpoint hrefused =>
      exact (asked_answered (by rw [Call.asking, hpoint]) Call.answers_failed
        Call.asking_failed).trans (List.append_nil _).symm
  | orphaned req jobId now db' hpoint hinsert =>
      exact (asked_answered (by rw [Call.asking, hpoint]) Call.answers_failed
        Call.asking_failed).trans (List.append_nil _).symm
  | sent job now hpoint =>
      have hidle : c.asking = none := by rw [Call.asking, hpoint]
      simp [asked, hidle, Act.request]

private theorem asked_step {a : Act} (hstep : step s a = some t) :
    asked t.call = asked s.call ++ a.request.toList := by
  cases a with
  | workers db =>
      obtain ⟨-, rfl⟩ := workers_of_step hstep
      exact (List.append_nil _).symm
  | own ev =>
      obtain ⟨e, he, rfl⟩ := Option.map_eq_some_iff.mp hstep
      exact asked_own he

theorem asked_run {acts : List Act} (hrun : run step s acts = some t) :
    asked t.call = asked s.call ++ received acts := by
  induction acts generalizing s with
  | nil =>
      obtain rfl := Option.some.inj hrun
      exact (List.append_nil _).symm
  | cons a acts ih =>
      obtain ⟨m, hstep, hrest⟩ := run_cons_eq_some.mp hrun
      rw [ih hrest, asked_step hstep, List.append_assoc]
      congr 1
      rw [received, received, List.filterMap_cons]
      cases a.request <;> rfl

def NoFailure (c : Call) : Prop := ∀ x ∈ c.answers, x.2 ≠ .failed

theorem NoFailure.append (h : NoFailure c) {answer : Answer}
    (hanswers : d.answers = c.answers ++ [(req, answer)]) (hne : answer ≠ .failed) :
    NoFailure d := by
  intro x hx
  rw [hanswers] at hx
  rcases List.mem_append.mp hx with hx | hx
  · exact h x hx
  · rw [List.mem_singleton.mp hx]
    exact hne

/-- On a healthy database nothing is refused: between its lookup and its insert nobody
else takes the key. -/
theorem NoFailure.step {a : Act} (h : NoFailure s.call) (htracked : Tracked start s)
    (hhealthy : Healthy s a) (hstep : step s a = some t) : NoFailure t.call := by
  cases a with
  | workers db =>
      obtain ⟨-, rfl⟩ := workers_of_step hstep
      exact h
  | own ev =>
      obtain ⟨e, he, rfl⟩ := Option.map_eq_some_iff.mp hstep
      cases steps_of_step he with
      | received b received hhandler hpoint =>
          intro x hx
          rw [Call.answers_onRecv] at hx
          exact h x hx
      | unanswered req fault now hpoint hfault => exact absurd hhealthy.1 hfault
      | found req row now hpoint hfound => exact h.append Call.answers_existing nofun
      | missed req now hpoint hmissed => exact h
      | created req jobId now db' hpoint hinsert => exact h.append Call.answers_created nofun
      | rejected req fault jobId now hpoint hrefused =>
          have hinserting : s.call.inserting = some req := by rw [Call.inserting, hpoint]
          have habsent := (not_mem_keys_iff s.db _).mp (htracked.absent req hinserting)
          have haccepted : (insertJob s.db now jobId req).isSome :=
            insertJob_isSome_iff.mpr ⟨hhealthy.2, habsent⟩
          rw [hrefused hhealthy.1] at haccepted
          cases haccepted
      | orphaned req jobId now db' hpoint hinsert => cases hhealthy.1
      | sent job now hpoint =>
          intro x hx
          rw [Call.answers_sent] at hx
          exact h x hx

end Steps

/-- A call on some of the requests that has returned, with statements failing in any way
that has no effect. -/
structure Run (db : Db) (acts : List Act) (s : Stage) : Prop where
  run : run step (begin db) acts = some s
  effectless : Meets step Effectless (begin db) acts
  returned : s.call.hasReturned = true

/-- A call on all of the requests on a healthy database, and its response. -/
structure HealthyRun (db : Db) (rs : List JobRequest) (acts : List Act) (s : Stage)
    (b : BatchResponse) : Prop where
  run : Base.Runs.run step (begin db) acts = some s
  healthy : Meets step Healthy (begin db) acts
  received : received acts = rs
  returned : s.call.point = .returned (.batch b)

variable {db : Db} {rs : List JobRequest} {acts : List Act} {s : Stage} {b : BatchResponse}

theorem HealthyRun.toRun (h : HealthyRun db rs acts s b) : Run db acts s where
  run := h.run
  effectless := meets_mono (fun _ _ => Healthy.effectless) h.healthy
  returned := by rw [Call.hasReturned, h.returned]

theorem Run.tracked (h : Run db acts s) : Tracked db s :=
  run_invariant (fun _ _ _ hI hcond hstep => hI.step hcond hstep) (tracked_begin db)
    h.effectless h.run

theorem Run.answered (h : Run db acts s) : s.call.answers.map Prod.fst = received acts := by
  have hasked := asked_run h.run
  have hidle : s.call.asking = none := by
    have hreturned := h.returned
    unfold Call.hasReturned at hreturned
    unfold Call.asking
    split at hreturned
    · next hpoint => rw [hpoint]
    · cases hreturned
  rw [asked, hidle, Option.toList_none, List.append_nil] at hasked
  exact hasked

theorem Run.sent (h : Run db acts s) : s.sent.map (·.id) = s.created := by
  refine h.tracked.sent_of_free ?_
  have hreturned := h.returned
  unfold Call.hasReturned at hreturned
  unfold Call.holding
  split at hreturned
  · next hpoint => rw [hpoint]
  · cases hreturned

theorem HealthyRun.noFailure (h : HealthyRun db rs acts s b) : NoFailure s.call := by
  have hboth : Tracked db s ∧ NoFailure s.call :=
    run_invariant (I := fun s => Tracked db s ∧ NoFailure s.call)
      (fun _ _ _ hI hcond hstep =>
        ⟨hI.1.step hcond.effectless hstep, hI.2.step hI.1 hcond hstep⟩)
      ⟨tracked_begin db, fun _ hx => absurd hx List.not_mem_nil⟩ h.healthy h.run
  exact hboth.2

theorem HealthyRun.response (h : HealthyRun db rs acts s b) : b = Replies.tally s.call.answers := by
  obtain ⟨b', hb'⟩ := h.toRun.tracked.batch
  have hcoherent := h.toRun.tracked.coherent
  unfold Coherent at hcoherent
  rw [hb', h.returned] at hcoherent
  rcases hcoherent with herror | hbatch
  · cases herror
  · exact Submit.Reply.batch.inj hbatch

/-- The actions lead there, on a healthy database. -/
structure Leads (s : Stage) (acts : List Act) (t : Stage) : Prop where
  run : run step s acts = some t
  healthy : Meets step Healthy s acts

section Leads

variable {m t : Stage} {a : Act} {acts' : List Act}

theorem Leads.refl (s : Stage) : Leads s [] s := ⟨rfl, trivial⟩

theorem Leads.cons (hstep : step s a = some m) (ha : Healthy s a) (h : Leads m acts t) :
    Leads s (a :: acts) t where
  run := run_cons_eq_some.mpr ⟨m, hstep, h.run⟩
  healthy := (meets_cons hstep).mpr ⟨ha, h.healthy⟩

theorem Leads.trans (h : Leads s acts m) (h' : Leads m acts' t) : Leads s (acts ++ acts') t where
  run := (run_append h.run).trans h'.run
  healthy := meets_append h.run h.healthy h'.healthy

end Leads

def Waits (s : Stage) : Prop := (∃ b, s.call.handler = .submitBatch b) ∧ s.call.point = .recv

private theorem exists_serve (hwaits : Waits s) (req : JobRequest) :
    ∃ acts t, Leads s acts t ∧ received acts = [req] ∧ Waits t := by
  obtain ⟨db, ⟨handler, point, answers⟩, created, sent⟩ := s
  obtain ⟨⟨b, hhandler⟩, hpoint⟩ := hwaits
  obtain rfl : handler = .submitBatch b := hhandler
  obtain rfl : point = .recv := hpoint
  let now := Base.Calendar.Time.zero
  let asked : Call :=
    { handler := .submitBatch { b with totalReceived := b.totalReceived + 1 }
      point := .lookup req
      answers := answers }
  have hrecv : step ⟨db, ⟨.submitBatch b, .recv, answers⟩, created, sent⟩
      (.own (.recv (.request req))) = some ⟨db, asked, created, sent⟩ := by
    simp [step, Submit.step, onRecv, asked]
  cases hkey : getJobByIdempotencyKey db req.idempotencyKey with
  | some row =>
      let answered : Stage := ⟨db, asked.existing req row.jobId now, created, sent⟩
      have hlookup : step ⟨db, asked, created, sent⟩ (.own (.lookup .none now)) =
          some answered := by
        simp [step, Submit.step, Submit.onLookup, hkey, asked, answered]
      refine ⟨[.own (.recv (.request req)), .own (.lookup .none now)], answered, ?_, rfl,
        ⟨_, rfl⟩, rfl⟩
      exact .cons hrecv ⟨rfl, trivial⟩ (.cons hlookup ⟨rfl, trivial⟩ (.refl _))
  | none =>
      obtain ⟨jobId, hfresh⟩ := db.jobs.exists_freshId
      have haccepted : (insertJob db now jobId req).isSome :=
        insertJob_isSome_iff.mpr ⟨hfresh, hkey⟩
      obtain ⟨db', hinsert⟩ := Option.isSome_iff_exists.mp haccepted
      let missed : Call := { asked with point := .insert req }
      let made : Call := missed.created req jobId
      let job : Job := Submit.enqueued jobId req
      let served : Stage := ⟨db', made.sent job now, created ++ [jobId], sent ++ [job]⟩
      have hlookup : step ⟨db, asked, created, sent⟩ (.own (.lookup .none now)) =
          some ⟨db, missed, created, sent⟩ := by
        simp [step, Submit.step, Submit.onLookup, hkey, asked, missed]
      have hmake : step ⟨db, missed, created, sent⟩ (.own (.insert .none jobId now)) =
          some ⟨db', made, created ++ [jobId], sent⟩ := by
        simp [step, Submit.step, Submit.onInsert, hinsert, Fault.exec, missed, made]
      have hsend : step ⟨db', made, created ++ [jobId], sent⟩ (.own (.send now)) = some served := by
        simp [step, Submit.step, Call.created, made, missed, asked, job, served]
      refine ⟨[.own (.recv (.request req)), .own (.lookup .none now),
        .own (.insert .none jobId now), .own (.send now)], served, ?_, rfl, ⟨_, rfl⟩, rfl⟩
      exact .cons hrecv ⟨rfl, trivial⟩ (.cons hlookup ⟨rfl, trivial⟩
        (.cons hmake ⟨rfl, hfresh⟩ (.cons hsend ⟨rfl, trivial⟩ (.refl _))))

private theorem exists_serveAll (rs : List JobRequest) (hwaits : Waits s) :
    ∃ acts t, Leads s acts t ∧ received acts = rs ∧ Waits t := by
  induction rs generalizing s with
  | nil => exact ⟨[], s, .refl s, rfl, hwaits⟩
  | cons req rs ih =>
      obtain ⟨acts, m, hleads, hreceived, hm⟩ := exists_serve hwaits req
      obtain ⟨acts', t, hleads', hreceived', ht⟩ := ih hm
      refine ⟨acts ++ acts', t, hleads.trans hleads', ?_, ht⟩
      rw [received, List.filterMap_append]
      exact congrArg₂ (· ++ ·) hreceived hreceived'

theorem exists_healthyRun (db : Db) (rs : List JobRequest) :
    ∃ acts s b, HealthyRun db rs acts s b := by
  have hwaits : Waits (begin db) := ⟨⟨_, rfl⟩, rfl⟩
  obtain ⟨acts, t, hleads, hreceived, ⟨b, hhandler⟩, hpoint⟩ := exists_serveAll rs hwaits
  let closed : Stage := { t with call := { t.call with point := .returned (.batch b) } }
  have hclose : step t (.own (.recv .eof)) = some closed := by
    simp [step, Submit.step, onRecv, hhandler, hpoint, closed]
  have hall : Leads (begin db) (acts ++ [.own (.recv .eof)]) closed :=
    hleads.trans (.cons hclose ⟨rfl, trivial⟩ (.refl closed))
  refine ⟨_, closed, b, hall.run, hall.healthy, ?_, rfl⟩
  rw [received, List.filterMap_append]
  exact (List.append_nil _).trans hreceived

end TrendingPipeline.Etl.Batch
