/- Unit: TrendingPipeline/Etl/Rerun
   source: backend/etl/server.go, backend/db/db.go
   digest: A batch submitted again after it broke off, and once more after that. -/

import Mathlib.Data.List.Dedup
import TrendingPipeline.Base.Decimal
import TrendingPipeline.Etl.Batch

set_option autoImplicit false
set_option relaxedAutoImplicit false

namespace TrendingPipeline.Etl.Rerun

open TrendingPipeline.Base.Decimal (decimal decimal_injective)
open TrendingPipeline.Base.Runs
open TrendingPipeline.Base.Calendar (Time)
open TrendingPipeline.Proto.Messages
open TrendingPipeline.Store.Tables (Db JobRow JobsTable)
open TrendingPipeline.Store.Statements
open TrendingPipeline.Etl.Submit (Answer Call Event Received Steps onRecv steps_of_step)
open TrendingPipeline.Etl.Replies (tally)
open TrendingPipeline.Etl.Batch
open TrendingPipeline.Worker.ProcessJob (Job)

def keys (db : Db) : List String := db.jobs.rows.map (·.idempotencyKey)

def ids (db : Db) : List String := db.jobs.rows.map (·.jobId)

/-- The keys of the requests that no row has, each once. -/
def absentKeys (db : Db) (rs : List JobRequest) : List String :=
  ((rs.map (·.idempotencyKey)).dedup).filter (· ∉ keys db)

private theorem keys_eq (db : Db) : (columns db).map Prod.snd = keys db := by
  rw [columns, List.map_map]
  rfl

private theorem ids_eq (db : Db) : (columns db).map Prod.fst = ids db := by
  rw [columns, List.map_map]
  rfl

private theorem id_of_key {db : Db} {i j key : String} (hi : (i, key) ∈ columns db)
    (hj : (j, key) ∈ columns db) : i = j := by
  have hnodup : ((columns db).map Prod.snd).Nodup := by
    rw [keys_eq]
    exact db.jobs.key_nodup
  exact (Prod.mk.inj (List.inj_on_of_nodup_map hnodup hi hj rfl)).1

private theorem mem_createdRows {answers : List (JobRequest × Answer)} {i key : String} :
    (i, key) ∈ createdRows answers ↔
      ∃ req, (req, Answer.created i) ∈ answers ∧ req.idempotencyKey = key := by
  constructor
  · intro h
    obtain ⟨⟨req, answer⟩, hmem, hrow⟩ := List.mem_filterMap.mp h
    cases answer with
    | failed => cases hrow
    | existing _ => cases hrow
    | created jobId =>
        obtain ⟨rfl, rfl⟩ := Prod.mk.inj (Option.some.inj hrow)
        exact ⟨req, hmem, rfl⟩
  · rintro ⟨req, hmem, rfl⟩
    exact List.mem_filterMap.mpr ⟨(req, .created i), hmem, rfl⟩

variable {db : Db} {rs : List JobRequest} {acts : List Act} {s : Stage} {b : BatchResponse}

private theorem createdKeys_new (h : Run db acts s) :
    ((createdRows s.call.answers).map Prod.snd).Nodup ∧
      ∀ key ∈ (createdRows s.call.answers).map Prod.snd, key ∉ keys db := by
  have hnodup : ((columns s.db).map Prod.snd).Nodup := by
    rw [keys_eq]
    exact s.db.jobs.key_nodup
  rw [h.tracked.rows, List.map_append, List.map_reverse, keys_eq] at hnodup
  obtain ⟨hcreated, -, hdisjoint⟩ := List.nodup_append'.mp hnodup
  exact ⟨List.nodup_reverse.mp hcreated, fun key hkey =>
    hdisjoint (List.mem_reverse.mpr hkey)⟩

private theorem ids_after (h : Run db acts s) : ids s.db = s.created.reverse ++ ids db := by
  rw [← ids_eq, h.tracked.rows, List.map_append, List.map_reverse, ids_eq, h.tracked.created]

private theorem request_of_created (h : Run db acts s) {i key : String}
    (hrow : (i, key) ∈ createdRows s.call.answers) :
    ∃ req ∈ received acts, req.idempotencyKey = key := by
  obtain ⟨req, hmem, hkey⟩ := mem_createdRows.mp hrow
  rw [← h.answered]
  exact ⟨req, List.mem_map_of_mem hmem, hkey⟩

private theorem row_of_created (h : Run db acts s) {req : JobRequest} {jobId : String}
    (hmem : (req, Answer.created jobId) ∈ s.call.answers) :
    (jobId, req.idempotencyKey) ∈ columns s.db := by
  rw [h.tracked.rows]
  exact List.mem_append_left _ (List.mem_reverse.mpr (mem_createdRows.mpr ⟨req, hmem, rfl⟩))

private theorem answer_of_request (h : HealthyRun db rs acts s b) {req : JobRequest}
    (hreq : req ∈ rs) :
    ∃ answer jobId, (req, answer) ∈ s.call.answers ∧
      (answer = .existing jobId ∨ answer = .created jobId) ∧
      (jobId, req.idempotencyKey) ∈ columns s.db := by
  rw [← h.received, ← h.toRun.answered] at hreq
  obtain ⟨⟨req', answer⟩, hmem, rfl⟩ := List.mem_map.mp hreq
  cases answer with
  | failed => exact absurd rfl (h.noFailure _ hmem)
  | existing jobId =>
      exact ⟨_, jobId, hmem, .inl rfl, h.toRun.tracked.existing req' jobId hmem⟩
  | created jobId => exact ⟨_, jobId, hmem, .inr rfl, row_of_created h.toRun hmem⟩

private theorem createdKeys_perm (h : HealthyRun db rs acts s b) :
    ((createdRows s.call.answers).map Prod.snd).Perm (absentKeys db rs) := by
  obtain ⟨hnodup, hnew⟩ := createdKeys_new h.toRun
  refine (List.perm_ext_iff_of_nodup hnodup ((List.nodup_dedup _).filter _)).mpr ?_
  intro key
  rw [List.mem_filter, List.mem_dedup, decide_eq_true_iff]
  constructor
  · intro hkey
    obtain ⟨⟨i, _⟩, hrow, rfl⟩ := List.mem_map.mp hkey
    obtain ⟨req, hreq, hreqKey⟩ := request_of_created h.toRun hrow
    rw [h.received] at hreq
    exact ⟨List.mem_map.mpr ⟨req, hreq, hreqKey⟩, hnew _ hkey⟩
  · rintro ⟨hkey, habsent⟩
    obtain ⟨req, hreq, rfl⟩ := List.mem_map.mp hkey
    obtain ⟨_, jobId, -, -, hrow⟩ := answer_of_request h hreq
    rw [h.toRun.tracked.rows] at hrow
    rcases List.mem_append.mp hrow with hcreated | hold
    · exact List.mem_map.mpr ⟨_, List.mem_reverse.mp hcreated, rfl⟩
    · rw [← keys_eq] at habsent
      exact absurd (List.mem_map.mpr ⟨_, hold, rfl⟩) habsent

private theorem totalAccepted_eq (h : HealthyRun db rs acts s b) :
    b.totalAccepted = Int32.ofNat (absentKeys db rs).length := by
  have hcount : s.call.answers.countP (fun x => Replies.Answer.isCreated x.2) =
      (createdRows s.call.answers).length := by
    rw [createdRows, List.length_filterMap_eq_countP]
    refine List.countP_congr ?_
    intro x _
    obtain ⟨req, answer⟩ := x
    cases answer <;> simp [Replies.Answer.isCreated, createdRow]
  rw [h.response, tally, hcount, ← (createdKeys_perm h).length_eq, List.length_map]

/-- A step of the call itself that leaves the tables and the channel alone. -/
def Quiet (s : Stage) : Act → Prop
  | .own ev => ∀ e, Submit.step s.db s.call ev = some e → e.db = s.db ∧ e.sent = none
  | .workers _ => True

private theorem history_step {s t : Stage} {a : Act} (hstep : step s a = some t) :
    s.created <+: t.created ∧ s.sent <+: t.sent := by
  cases a with
  | own ev =>
      obtain ⟨e, -, rfl⟩ := Option.map_eq_some_iff.mp hstep
      exact ⟨List.prefix_append _ _, List.prefix_append _ _⟩
  | workers db =>
      obtain ⟨-, rfl⟩ := workers_of_step hstep
      exact ⟨List.prefix_rfl, List.prefix_rfl⟩

private theorem history_run {s t : Stage} (hrun : run step s acts = some t) :
    s.created <+: t.created ∧ s.sent <+: t.sent := by
  induction acts generalizing s with
  | nil =>
      obtain rfl := Option.some.inj hrun
      exact ⟨List.prefix_rfl, List.prefix_rfl⟩
  | cons a acts ih =>
      obtain ⟨m, hstep, hrest⟩ := run_cons_eq_some.mp hrun
      obtain ⟨hcreated, hsent⟩ := history_step hstep
      obtain ⟨hcreated', hsent'⟩ := ih hrest
      exact ⟨hcreated.trans hcreated', hsent.trans hsent'⟩

private theorem quiet_step {s t : Stage} {a : Act} (heffectless : Effectless s a)
    (hstep : step s a = some t) (hcreated : t.created = []) (hsent : t.sent = []) : Quiet s a := by
  cases a with
  | workers db => trivial
  | own ev =>
      intro e he
      obtain ⟨e', he', rfl⟩ := Option.map_eq_some_iff.mp hstep
      obtain rfl : e' = e := Option.some.inj (he'.symm.trans he)
      have hnoRow : e'.created = none :=
        Option.toList_eq_nil_iff.mp (List.append_eq_nil_iff.mp hcreated).2
      have hnoJob : e'.sent = none :=
        Option.toList_eq_nil_iff.mp (List.append_eq_nil_iff.mp hsent).2
      cases steps_of_step he with
      | created => cases hnoRow
      | orphaned => exact absurd rfl heffectless
      | sent => cases hnoJob
      | received => exact ⟨rfl, rfl⟩
      | unanswered => exact ⟨rfl, rfl⟩
      | found => exact ⟨rfl, rfl⟩
      | missed => exact ⟨rfl, rfl⟩
      | rejected => exact ⟨rfl, rfl⟩

private theorem quiet_run {s t : Stage} (hrun : run step s acts = some t)
    (heffectless : Meets step Effectless s acts) (hcreated : t.created = []) (hsent : t.sent = []) :
    Meets step Quiet s acts := by
  induction acts generalizing s with
  | nil => trivial
  | cons a acts ih =>
      obtain ⟨m, hstep, hrest⟩ := run_cons_eq_some.mp hrun
      obtain ⟨ha, has⟩ := (meets_cons hstep).mp heffectless
      obtain ⟨hmCreated, hmSent⟩ := history_run hrest
      rw [hcreated, List.prefix_nil] at hmCreated
      rw [hsent, List.prefix_nil] at hmSent
      exact (meets_cons hstep).mpr ⟨quiet_step ha hstep hmCreated hmSent, ih hrest has⟩

private theorem nothing_created (h : HealthyRun db rs acts s b)
    (hpresent : ∀ req ∈ rs, req.idempotencyKey ∈ keys db) :
    createdRows s.call.answers = [] := by
  have habsent : absentKeys db rs = [] := by
    refine List.filter_eq_nil_iff.mpr ?_
    intro key hkey
    obtain ⟨req, hreq, rfl⟩ := List.mem_map.mp (List.mem_dedup.mp hkey)
    simpa using hpresent req hreq
  have hperm := createdKeys_perm h
  rw [habsent, List.perm_nil, List.map_eq_nil_iff] at hperm
  exact hperm

/-- The ids of the rows that are new since `start`. -/
def newIds (start db : Db) : List String := (ids db).filter (· ∉ ids start)

/-- What a second call on all of the requests leaves behind a first one. -/
structure Repaired (start : Db) (rs : List JobRequest) (s₁ s₂ : Stage) (b : BatchResponse) :
    Prop where
  oneRow : ∀ req ∈ rs, (keys s₂.db).count req.idempotencyKey = 1
  sentOnce : ∀ id ∈ newIds start s₂.db, ((s₁.sent ++ s₂.sent).map (·.id)).count id = 1
  sentNew : ∀ job ∈ s₁.sent ++ s₂.sent, job.id ∈ newIds start s₂.db
  onlyAbsent : ∀ r ∈ s₂.db.jobs.rows, r.jobId ∈ newIds s₁.db s₂.db →
    r.idempotencyKey ∈ absentKeys s₁.db rs
  accepted : b.totalAccepted = Int32.ofNat (absentKeys s₁.db rs).length
  sameIds : ∀ req jobId, (req, Answer.created jobId) ∈ s₁.call.answers →
    (∃ result ∈ b.results, result.idempotencyKey = req.idempotencyKey) ∧
      ∀ result ∈ b.results, result.idempotencyKey = req.idempotencyKey → result.jobId = jobId

structure Idle (start : Db) (acts : List Act) (s : Stage) : Prop where
  rows : columns s.db = columns start
  sent : s.sent = []
  quiet : Meets step Quiet (begin start) acts

section Rerun

variable {acts₁ acts₂ acts₃ : List Act} {s₁ s₂ s₃ : Stage} {b₂ b₃ : BatchResponse}

private theorem newIds_eq (h₁ : Run db acts₁ s₁) (h₂ : Run s₁.db acts₂ s₂) :
    newIds db s₂.db = (s₁.created ++ s₂.created).reverse := by
  have hall : ids s₂.db = (s₁.created ++ s₂.created).reverse ++ ids db := by
    rw [ids_after h₂, ids_after h₁, List.reverse_append, List.append_assoc]
  have hnodup : (ids s₂.db).Nodup := s₂.db.jobs.jobId_nodup
  rw [hall] at hnodup
  obtain ⟨-, -, hdisjoint⟩ := List.nodup_append'.mp hnodup
  rw [newIds, hall, List.filter_append, List.filter_eq_self.mpr, List.filter_eq_nil_iff.mpr,
    List.append_nil]
  · intro id hid
    simpa using hid
  · intro id hid
    simpa using hdisjoint hid

private theorem sent_eq (h₁ : Run db acts₁ s₁) (h₂ : Run s₁.db acts₂ s₂) :
    (s₁.sent ++ s₂.sent).map (·.id) = (newIds db s₂.db).reverse := by
  rw [List.map_append, h₁.sent, h₂.sent, newIds_eq h₁ h₂, List.reverse_reverse]

private theorem mem_keys_of_request (h : HealthyRun db rs acts s b) {req : JobRequest}
    (hreq : req ∈ rs) :
    req.idempotencyKey ∈ keys s.db := by
  obtain ⟨_, jobId, -, -, hrow⟩ := answer_of_request h hreq
  rw [← keys_eq]
  exact List.mem_map.mpr ⟨_, hrow, rfl⟩

private theorem onlyAbsent (h : HealthyRun db rs acts s b) {r : JobRow} (hr : r ∈ s.db.jobs.rows)
    (hnew : r.jobId ∈ newIds db s.db) : r.idempotencyKey ∈ absentKeys db rs := by
  have hrow : (r.jobId, r.idempotencyKey) ∈ columns s.db := List.mem_map_of_mem hr
  have hnotOld : r.jobId ∉ ids db := by simpa using (List.mem_filter.mp hnew).2
  rw [h.toRun.tracked.rows] at hrow
  rcases List.mem_append.mp hrow with hcreated | hold
  · exact (createdKeys_perm h).mem_iff.mp
      (List.mem_map.mpr ⟨_, List.mem_reverse.mp hcreated, rfl⟩)
  · rw [← ids_eq] at hnotOld
    exact absurd (List.mem_map.mpr ⟨_, hold, rfl⟩) hnotOld

private theorem row_of_result (h : HealthyRun db rs acts s b) {result : BatchJobResult}
    (hresult : result ∈ b.results) : (result.jobId, result.idempotencyKey) ∈ columns s.db := by
  rw [h.response] at hresult
  obtain ⟨⟨req, answer⟩, hmem, hentry⟩ := List.mem_filterMap.mp hresult
  cases answer with
  | failed => cases hentry
  | existing jobId =>
      obtain rfl := Option.some.inj hentry
      exact h.toRun.tracked.existing req jobId hmem
  | created jobId =>
      obtain rfl := Option.some.inj hentry
      exact row_of_created h.toRun hmem

private theorem result_of_request (h : HealthyRun db rs acts s b) {req : JobRequest}
    (hreq : req ∈ rs) :
    ∃ result ∈ b.results, result.idempotencyKey = req.idempotencyKey := by
  obtain ⟨answer, jobId, hmem, hanswer, -⟩ := answer_of_request h hreq
  rw [h.response]
  rcases hanswer with rfl | rfl
  · exact ⟨_, List.mem_filterMap.mpr ⟨_, hmem, rfl⟩, rfl⟩
  · exact ⟨_, List.mem_filterMap.mpr ⟨_, hmem, rfl⟩, rfl⟩

private theorem sameIds (h₁ : Run db acts₁ s₁) (h₂ : HealthyRun s₁.db rs acts₂ s₂ b₂)
    (hstream : received acts₁ <+: rs) {req : JobRequest} {jobId : String}
    (hmem : (req, Answer.created jobId) ∈ s₁.call.answers) :
    (∃ result ∈ b₂.results, result.idempotencyKey = req.idempotencyKey) ∧
      ∀ result ∈ b₂.results, result.idempotencyKey = req.idempotencyKey → result.jobId = jobId := by
  have hreq : req ∈ rs := by
    refine hstream.subset ?_
    rw [← h₁.answered]
    exact List.mem_map_of_mem hmem
  refine ⟨result_of_request h₂ hreq, ?_⟩
  intro result hresult hkey
  have hrow : (jobId, req.idempotencyKey) ∈ columns s₂.db := by
    rw [h₂.toRun.tracked.rows]
    exact List.mem_append_right _ (row_of_created h₁ hmem)
  have hresultRow := row_of_result h₂ hresult
  rw [hkey] at hresultRow
  exact id_of_key hresultRow hrow

/-- A first call that broke off anywhere, with any statements failing, a second one on
all of the requests, and a third one. -/
theorem rerun_repairs (h₁ : Run db acts₁ s₁) (hstream : received acts₁ <+: rs)
    (h₂ : HealthyRun s₁.db rs acts₂ s₂ b₂) (h₃ : HealthyRun s₂.db rs acts₃ s₃ b₃) :
    Repaired db rs s₁ s₂ b₂ ∧ Idle s₂.db acts₃ s₃ := by
  have hnodup : (newIds db s₂.db).Nodup := s₂.db.jobs.jobId_nodup.filter _
  have hnothing : createdRows s₃.call.answers = [] :=
    nothing_created h₃ fun req hreq => mem_keys_of_request h₂ hreq
  have hcreated : s₃.created = [] := by
    rw [h₃.toRun.tracked.created, hnothing, List.map_nil]
  have hsent : s₃.sent = [] := List.map_eq_nil_iff.mp (h₃.toRun.sent.trans hcreated)
  constructor
  · exact
      { oneRow := fun req hreq =>
          List.count_eq_one_of_mem s₂.db.jobs.key_nodup (mem_keys_of_request h₂ hreq)
        sentOnce := fun id hid => by
          rw [sent_eq h₁ h₂.toRun, List.count_reverse]
          exact List.count_eq_one_of_mem hnodup hid
        sentNew := fun job hjob => by
          have hid : job.id ∈ (s₁.sent ++ s₂.sent).map (·.id) := List.mem_map_of_mem hjob
          rw [sent_eq h₁ h₂.toRun] at hid
          exact List.mem_reverse.mp hid
        onlyAbsent := fun r hr hnew => onlyAbsent h₂ hr hnew
        accepted := totalAccepted_eq h₂
        sameIds := fun req jobId hmem => sameIds h₁ h₂ hstream hmem }
  · refine ⟨?_, hsent, quiet_run h₃.run h₃.toRun.effectless hcreated hsent⟩
    rw [h₃.toRun.tracked.rows, hnothing]
    rfl

end Rerun

def cronRequest (region : String) : JobRequest where
  region := region
  maxResults := 50
  idempotencyKey := "cron-" ++ region

def cronBatch : List JobRequest := [cronRequest "US", cronRequest "GB", cronRequest "US"]

def asks (region : String) : List Act :=
  [.own (.recv (.request (cronRequest region))), .own (.lookup .none Time.zero)]

def makes (jobId : String) : List Act :=
  [.own (.insert .none jobId Time.zero), .own (.send Time.zero)]

/-- The lookup of the second request fails and the stream breaks. -/
def brokenOff : List Act :=
  asks "US" ++ makes "job-1" ++
    [.own (.recv (.request (cronRequest "GB"))), .own (.lookup .lost Time.zero),
      .own (.recv .error)]

def again : List Act :=
  asks "US" ++ asks "GB" ++ makes "job-2" ++ asks "US" ++ [.own (.recv .eof)]

def onceMore : List Act := asks "US" ++ asks "GB" ++ asks "US" ++ [.own (.recv .eof)]

def after (db : Db) (acts : List Act) : Stage := (run step (begin db) acts).getD (begin db)

def broken : Stage := after .empty brokenOff

def repaired : Stage := after broken.db again

private theorem run_brokenOff : Run .empty brokenOff broken where
  run := rfl
  effectless := by decide
  returned := rfl

/-- The response to the three, where the second got `message`. -/
def cronResponse (accepted rejected : Int32) (message : String) : BatchResponse where
  totalReceived := 3
  totalAccepted := accepted
  totalRejected := rejected
  results :=
    [{ jobId := "job-1", state := .queued, idempotencyKey := "cron-US",
       message := Submit.existsMessage },
     { jobId := "job-2", state := .queued, idempotencyKey := "cron-GB", message := message },
     { jobId := "job-1", state := .queued, idempotencyKey := "cron-US",
       message := Submit.existsMessage }]

private theorem run_again : HealthyRun broken.db cronBatch again repaired
    (cronResponse 1 2 Submit.processedMessage) where
  run := rfl
  healthy := by decide
  received := by decide
  returned := by decide

private theorem run_onceMore : HealthyRun repaired.db cronBatch onceMore
    (after repaired.db onceMore)
    (cronResponse 0 3 Submit.existsMessage) where
  run := rfl
  healthy := by decide
  received := by decide
  returned := by decide

theorem rerun_repairs_cron :
    Repaired .empty cronBatch broken repaired (cronResponse 1 2 Submit.processedMessage) ∧
      Idle repaired.db onceMore (after repaired.db onceMore) :=
  rerun_repairs run_brokenOff (by decide) run_again run_onceMore

/-- Requests with the keys `0`, `1`, … -/
def numberedBatch (n : ℕ) : List JobRequest :=
  (List.range n).map fun k : ℕ => { idempotencyKey := String.ofList (decimal k) }

private theorem absentKeys_numberedBatch (n : ℕ) :
    (absentKeys .empty (numberedBatch n)).length = n := by
  have hkeys : (numberedBatch n).map (·.idempotencyKey) =
      (List.range n).map fun k : ℕ => String.ofList (decimal k) := by
    rw [numberedBatch, List.map_map]
    rfl
  have hnodup : ((numberedBatch n).map (·.idempotencyKey)).Nodup := by
    rw [hkeys]
    refine List.nodup_range.map ?_
    intro i j hij
    exact Int.ofNat_inj.mp (decimal_injective (String.ofList_inj.mp hij))
  have hall : ∀ key ∈ (numberedBatch n).map (·.idempotencyKey),
      decide (key ∉ keys Db.empty) = true := fun key _ => rfl
  rw [absentKeys, hnodup.dedup, List.filter_eq_self.mpr hall, List.length_map, numberedBatch,
    List.length_map, List.length_range]

private theorem run_error (db : Db) : Run db [.own (.recv .error)]
    { begin db with call := { Call.submitBatch with point := .returned .error } } where
  run := rfl
  effectless := ⟨nofun, trivial⟩
  returned := rfl

/-- With `2 ^ 31` new keys `total_accepted` is not their number. -/
theorem longBatch_wraps :
    ∃ acts₁ s₁ acts₂ s₂ b₂, Run .empty acts₁ s₁ ∧ received acts₁ <+: numberedBatch (2 ^ 31) ∧
      HealthyRun s₁.db (numberedBatch (2 ^ 31)) acts₂ s₂ b₂ ∧
      (absentKeys s₁.db (numberedBatch (2 ^ 31))).length = 2 ^ 31 ∧
      b₂.totalAccepted.toInt = -2 ^ 31 := by
  obtain ⟨acts, s, b, hrun⟩ := exists_healthyRun .empty (numberedBatch (2 ^ 31))
  refine ⟨_, _, acts, s, b, run_error .empty, List.nil_prefix, hrun,
    absentKeys_numberedBatch _, ?_⟩
  rw [totalAccepted_eq hrun, absentKeys_numberedBatch]
  decide

end TrendingPipeline.Etl.Rerun
