/- Unit: TrendingPipeline/System/Dedup
   source: backend/etl/server.go, backend/db/db.go, frontend/components/job-form.tsx
   digest: Which submissions are answered with the job of another one. -/

import TrendingPipeline.Frontend.JobForm
import TrendingPipeline.System.Lifecycle
import TrendingPipeline.System.SameKey

set_option autoImplicit false
set_option relaxedAutoImplicit false

namespace TrendingPipeline.System.Dedup

open TrendingPipeline.Base.Calendar (Time)
open TrendingPipeline.Base.Runs
open TrendingPipeline.Proto.Messages (BatchResponse JobRequest)
open TrendingPipeline.Store.Tables (Db JobProgress JobRow JobsTable)
open TrendingPipeline.Store.Statements
open TrendingPipeline.Etl.Replies (Tells replyOf)
open TrendingPipeline.Etl.Submit (Answer Call Event onRecv)
open TrendingPipeline.Frontend.JobForm
open TrendingPipeline.Worker.ProcessJob (Job)
open TrendingPipeline.Worker.Machine (Input Point)
open TrendingPipeline.System.Step

/-- A submission by the form, or a POST without an idempotency key. -/
inductive Submission
  | form (input : FormInput)
  | post (req : JobRequest) (keyless : req.idempotencyKey = "")
  deriving DecidableEq

def Submission.request (sha : Sha256) : Submission → JobRequest
  | .form input => input.request sha
  | .post req _ => req

def Submitted (sha : Sha256) (history : List Submission) (req : JobRequest) : Prop :=
  ∃ sub ∈ history, sub.request sha = req

/-- All that comes in are the submissions of the history; anything may fail. -/
def FromHistory (sha : Sha256) (history : List Submission) (_ : State) : Act → Prop
  | .submitJob req => Submitted sha history req
  | .call _ (.recv (.request req)) => Submitted sha history req
  | _ => True

instance (sha : Sha256) (history : List Submission) (req : JobRequest) :
    Decidable (Submitted sha history req) :=
  inferInstanceAs (Decidable (∃ sub ∈ history, _))

instance (sha : Sha256) (history : List Submission) (s : State) :
    ∀ a, Decidable (FromHistory sha history s a)
  | .submitJob _ | .call _ (.recv (.request _)) => inferInstanceAs (Decidable (Submitted ..))
  | .call _ (.recv .eof) | .call _ (.recv .error) | .call _ (.lookup _ _)
  | .call _ (.insert _ _ _) | .call _ (.send _) => inferInstanceAs (Decidable True)
  | .submitBatch | .receive _ | .work _ _ | .shutdown | .exit | .boot _ =>
      inferInstanceAs (Decidable True)

/-- No two texts of the history's forms have the same truncated digest. -/
def CollisionFree (sha : Sha256) (history : List Submission) : Prop :=
  Set.InjOn (fun data => truncatedHex (sha.digest data))
    {data | ∃ input, .form input ∈ history ∧ input.hashed = data}

/-- What a submission and the one it is merged with have in common. -/
def Merges : Submission → Submission → Prop
  | .form f, .form g =>
      f.region = g.region ∧
        (f.hourText.length = g.hourText.length →
          f.categoryId = g.categoryId ∧ currentHour f.now = currentHour g.now)
  | .post _ _, .post _ _ => True
  | .form _, .post _ _ | .post _ _, .form _ => False

private theorem merges_of_key {sha : Sha256} {history : List Submission}
    (hfree : CollisionFree sha history)
    {sub sub' : Submission} (hsub : sub ∈ history) (hsub' : sub' ∈ history)
    (hkey : (sub.request sha).idempotencyKey = (sub'.request sha).idempotencyKey) :
    Merges sub sub' := by
  cases sub with
  | form f =>
      cases sub' with
      | form g =>
          have hhashed : f.hashed = g.hashed := hfree ⟨f, hsub, rfl⟩ ⟨g, hsub', rfl⟩ hkey
          exact keyInput_inj (encode_injective hhashed)
      | post req keyless =>
          exact absurd (hkey.trans keyless) (generateIdempotencyKey_ne_empty sha _ _ _)
  | post req keyless =>
      cases sub' with
      | form g =>
          exact absurd (hkey.symm.trans keyless) (generateIdempotencyKey_ne_empty sha _ _ _)
      | post req' keyless' => trivial

def asInserted (r : JobRow) : JobRow := { r with toJobProgress := {} }

def insertedRows (db : Db) : List JobRow := db.jobs.rows.map asInserted

def CreatedFor (req : JobRequest) (r : JobRow) : Prop :=
  ∃ now, asInserted r = newRow now r.jobId req

private theorem insertedRows_insertJob {db db' : Db} {now : Time} {jobId : String}
    {req : JobRequest}
    (h : insertJob db now jobId req = some db') :
    insertedRows db' = newRow now jobId req :: insertedRows db := by
  rw [insertedRows, JobsTable.rows_insert (insertJob_jobs h)]
  rfl

private theorem insertedRows_updateJob (db : Db) (jobId : String) (g : JobProgress → JobProgress) :
    insertedRows (updateJob db jobId g) = insertedRows db := by
  change (db.jobs.rows.map _).map asInserted = db.jobs.rows.map asInserted
  rw [List.map_map]
  refine List.map_congr_left ?_
  intro r _
  rw [Function.comp_apply]
  split <;> rfl

theorem insertedRows_of_work {job : Job} {inp : Input} {db db' : Db} {p : Point}
    {next : Worker.Machine.Next} (h : Worker.Effects.Steps job inp db p next db') :
    insertedRows db' = insertedRows db := by
  cases h.touches with
  | nothing h => rw [h]
  | row g h => rw [h, insertedRows_updateJob]
  | video v h => rw [insertedRows, insertVideo_jobs h, insertedRows]

/-- A call deals with submissions of the history only, and when it names an existing
job, that job has the key it was asked for. -/
structure Sourced (sha : Sha256) (history : List Submission) (rows : List JobRow) (c : Call) :
    Prop where
  asked : ∀ req, c.asking = some req → Submitted sha history req
  merged : ∀ req id, (req, Answer.existing id) ∈ c.answers → Submitted sha history req ∧
    ∃ r ∈ rows, r.jobId = id ∧ r.idempotencyKey = req.idempotencyKey

variable {sha : Sha256} {history : List Submission} {s t : State}

theorem Sourced.mono {rows rows' : List JobRow} {c : Call} (h : Sourced sha history rows c)
    (hrows : rows ⊆ rows') : Sourced sha history rows' c := by
  refine ⟨h.asked, ?_⟩
  intro req id hanswer
  obtain ⟨hsub, r, hr, hid, hkey⟩ := h.merged req id hanswer
  exact ⟨hsub, r, hrows hr, hid, hkey⟩

theorem Sourced.answered {rows : List JobRow} {c d : Call} {req : JobRequest} {answer : Answer}
    (h : Sourced sha history rows c) (hidle : d.asking = none)
    (hanswers : d.answers = c.answers ++ [(req, answer)])
    (hexisting : ∀ id, answer = .existing id → Submitted sha history req ∧
      ∃ r ∈ rows, r.jobId = id ∧ r.idempotencyKey = req.idempotencyKey) :
    Sourced sha history rows d := by
  refine ⟨fun req' hreq => ?_, fun req' id hmem => ?_⟩
  · rw [hidle] at hreq
    cases hreq
  rw [hanswers] at hmem
  rcases List.mem_append.mp hmem with hmem | hmem
  · exact h.merged req' id hmem
  · obtain ⟨rfl, hanswer⟩ := Prod.mk.inj (List.mem_singleton.mp hmem)
    exact hexisting id hanswer.symm

private theorem insertedRows_of_call {db : Db} {c : Call} {ev : Event} {e : Etl.Submit.Effect}
    (hstep : Etl.Submit.Steps db c ev e) :
    insertedRows e.db = insertedRows db ∨
      ∃ req now jobId, c.asking = some req ∧
        insertedRows e.db = newRow now jobId req :: insertedRows db := by
  have hinserted : ∀ (req : JobRequest) (jobId : String) (now : Time) (db' : Db),
      c.point = .insert req → insertJob db now jobId req = some db' →
      ∃ req now jobId, c.asking = some req ∧
        insertedRows db' = newRow now jobId req :: insertedRows db := by
    intro req jobId now db' hpoint hinsert
    exact ⟨req, now, jobId, by rw [Call.asking, hpoint], insertedRows_insertJob hinsert⟩
  cases hstep with
  | created req jobId now db' hpoint hinsert =>
      exact .inr (hinserted req jobId now db' hpoint hinsert)
  | orphaned req jobId now db' hpoint hinsert =>
      exact .inr (hinserted req jobId now db' hpoint hinsert)
  | received => exact .inl rfl
  | unanswered => exact .inl rfl
  | found => exact .inl rfl
  | missed => exact .inl rfl
  | rejected => exact .inl rfl
  | sent => exact .inl rfl

private theorem insertedRows_grow {db : Db} {c : Call} {ev : Event} {e : Etl.Submit.Effect}
    (hstep : Etl.Submit.Steps db c ev e) : insertedRows db ⊆ insertedRows e.db := by
  rcases insertedRows_of_call hstep with heq | ⟨req, now, jobId, -, heq⟩
  · rw [heq]
    exact List.Subset.refl _
  · rw [heq]
    exact List.subset_cons_self _ _

theorem Sourced.step {db : Db} {c : Call} {ev : Event} {e : Etl.Submit.Effect}
    (h : Sourced sha history (insertedRows db) c) (hstep : Etl.Submit.Steps db c ev e)
    (hrecv : ∀ req, ev = .recv (.request req) → Submitted sha history req) :
    Sourced sha history (insertedRows e.db) e.call := by
  have hgrows := insertedRows_grow hstep
  have hkept := h.mono hgrows
  cases hstep with
  | received b received hhandler hpoint =>
      constructor
      · intro req hreq
        cases received with
        | request req' =>
            obtain rfl : req' = req := by simpa [onRecv, Call.asking] using hreq
            exact hrecv req' rfl
        | eof => cases hreq
        | error => cases hreq
      · intro req id hmem
        rw [Call.answers_onRecv] at hmem
        exact hkept.merged req id hmem
  | unanswered req fault now hpoint hfault =>
      exact hkept.answered Call.asking_failed Call.answers_failed nofun
  | found req row now hpoint hfound =>
      refine hkept.answered Call.asking_existing Call.answers_existing ?_
      rintro id heq
      obtain rfl := Answer.existing.inj heq
      obtain ⟨hmem, hkey⟩ := JobsTable.byKey_eq_some_iff.mp hfound
      exact ⟨h.asked req (by rw [Call.asking, hpoint]), asInserted row, List.mem_map_of_mem hmem,
        rfl, hkey⟩
  | missed req now hpoint hmissed =>
      refine ⟨?_, hkept.merged⟩
      intro req' hreq
      exact h.asked req' (by rw [Call.asking, hpoint]; exact hreq)
  | created req jobId now db' hpoint hinsert =>
      exact hkept.answered Call.asking_created Call.answers_created nofun
  | rejected req fault jobId now hpoint hrefused =>
      exact hkept.answered Call.asking_failed Call.answers_failed nofun
  | orphaned req jobId now db' hpoint hinsert =>
      exact hkept.answered Call.asking_failed Call.answers_failed nofun
  | sent job now hpoint =>
      constructor
      · intro req hreq
        rw [Call.asking_sent] at hreq
        cases hreq
      · intro req id hmem
        rw [Call.answers_sent] at hmem
        exact hkept.merged req id hmem

/-- Every row was made for a submission, and every call deals with submissions. -/
structure Traced (sha : Sha256) (history : List Submission) (s : State) : Prop where
  rows : ∀ r ∈ insertedRows s.db,
    ∃ req now, Submitted sha history req ∧ r = newRow now r.jobId req
  calls : ∀ c ∈ s.calls, Sourced sha history (insertedRows s.db) c

theorem Traced.of_same (h : Traced sha history s) (hrows : insertedRows t.db = insertedRows s.db)
    (hcalls : ∀ c ∈ t.calls, c ∈ s.calls) : Traced sha history t := by
  refine ⟨fun r hr => h.rows r (hrows ▸ hr), ?_⟩
  intro c hc
  rw [hrows]
  exact h.calls c (hcalls c hc)

private theorem Traced.incoming (h : Traced sha history s) {c : Call}
    (hasked : ∀ req, c.asking = some req → Submitted sha history req) (hanswers : c.answers = []) :
    Traced sha history { s with calls := s.calls ++ [c] } := by
  refine ⟨h.rows, ?_⟩
  intro d hd
  rcases List.mem_append.mp hd with hd | hd
  · exact h.calls d hd
  · obtain rfl := List.mem_singleton.mp hd
    exact ⟨hasked, fun req id hmem => by rw [hanswers] at hmem; cases hmem⟩

theorem Traced.afterCall (h : Traced sha history s) {i : Nat} {ev : Event} {c : Call}
    {e : Etl.Submit.Effect} (hc : s.calls[i]? = some c) (hstep : Etl.Submit.step s.db c ev = some e)
    (hrecv : ∀ req, ev = .recv (.request req) → Submitted sha history req)
    (hdb : t.db = e.db) (hcalls : t.calls = s.calls.set i e.call) : Traced sha history t := by
  have hsteps := Etl.Submit.steps_of_step hstep
  have hsourced := h.calls c (List.mem_of_getElem? hc)
  constructor
  · intro r hr
    rw [hdb] at hr
    rcases insertedRows_of_call hsteps with heq | ⟨req, now, jobId, hasking, heq⟩
    · exact h.rows r (heq ▸ hr)
    · rw [heq] at hr
      rcases List.mem_cons.mp hr with rfl | hr
      · exact ⟨req, now, hsourced.asked req hasking, rfl⟩
      · exact h.rows r hr
  · intro d hd
    rw [hcalls] at hd
    rw [hdb]
    rcases List.mem_or_eq_of_mem_set hd with hd | rfl
    · exact (h.calls d hd).mono (insertedRows_grow hsteps)
    · exact hsourced.step hsteps hrecv

private theorem traced_of_step {a : Act} (h : Traced sha history s)
    (hok : FromHistory sha history s a)
    (hstep : step s a = some t) : Traced sha history t := by
  have hrecv : ∀ {i : Nat} {ev : Event}, FromHistory sha history s (.call i ev) →
      ∀ req, ev = .recv (.request req) → Submitted sha history req := by
    rintro i ev hok req rfl
    exact hok
  cases acts_of_step hstep with
  | submitJob req hphase =>
      refine h.incoming ?_ rfl
      intro req' hreq
      obtain rfl : req = req' := Option.some.inj hreq
      exact hok
  | submitBatch hphase => exact h.incoming nofun rfl
  | call i ev c e hc hcall hsent => exact h.afterCall hc hcall (hrecv hok) rfl rfl
  | send i ev c e job hc hcall hsent hroom => exact h.afterCall hc hcall (hrecv hok) rfl rfl
  | receive => exact h.of_same rfl fun _ hc => hc
  | work w inp job p hw =>
      refine h.of_same ?_ ?_
      · rw [s.afterWork_db]
        exact insertedRows_of_work (Worker.Effects.steps_step job inp s.db p)
      · intro c hc
        rcases s.afterWork_memory w job p inp with ⟨hcalls, -⟩ | ⟨-, hcalls⟩
        · rwa [hcalls] at hc
        · rw [hcalls] at hc
          cases hc
  | shutdown => exact h.of_same rfl fun _ hc => hc
  | exit => exact h.of_same rfl nofun
  | boot => exact h.of_same rfl nofun

private theorem traced_of_reachable (h : Reachable Migrated step (FromHistory sha history) s) :
    Traced sha history s := by
  refine h.invariant ?_ fun _ _ _ hs hok hstep => traced_of_step hs hok hstep
  rintro _ rfl
  exact ⟨fun r hr => absurd hr List.not_mem_nil, fun c hc => absurd hc List.not_mem_nil⟩

/-- Whoever is given the id of a job that exists is given one that was made for a
submission with the same key: both left the key out, or both come from the form and ask
for the same region, and for the same category if their hours have as many digits. A reply
that is out says so. -/
theorem merged_of_reachable (hfree : CollisionFree sha history)
    (h : Reachable Migrated step (FromHistory sha history) s) {c : Call} (hc : c ∈ s.calls)
    {req : JobRequest} {id : String} (hanswer : (req, .existing id) ∈ c.answers) :
    Submitted sha history req ∧
      (∀ sub ∈ history, sub.request sha = req → ∃ sub' ∈ history, ∃ r,
        s.db.jobs.byId id = some r ∧ CreatedFor (sub'.request sha) r ∧
          r.idempotencyKey = req.idempotencyKey ∧ Merges sub sub') ∧
      (c.hasReturned = true → Tells c) := by
  have htraced := traced_of_reachable h
  obtain ⟨hsubmitted, r, hr, hid, hkey⟩ := (htraced.calls c hc).merged req id hanswer
  have hany : Reachable Cold step Anything s :=
    (cold_of_migrated h).mono fun _ _ _ => trivial
  refine ⟨hsubmitted, ?_, (SameKey.coherent_of_reachable hany c hc).tells⟩
  intro sub hsub hreq
  obtain ⟨_, now, ⟨sub', hsub', rfl⟩, hmade⟩ := htraced.rows r hr
  obtain ⟨row, hrow, rfl⟩ := List.mem_map.mp hr
  refine ⟨sub', hsub', row, JobsTable.byId_eq_some_iff.mpr ⟨hrow, hid⟩, ⟨now, hmade⟩, hkey, ?_⟩
  refine merges_of_key hfree hsub hsub' ?_
  have hsame : (asInserted row).idempotencyKey = (sub'.request sha).idempotencyKey := by
    rw [hmade]
    rfl
  rw [hreq, ← hkey, hsame]

/-- SHA-256 on the two texts of the sample. -/
def sampleDigest (data : List UInt8) : List UInt8 :=
  if data = encode "US0480000" then
    [182, 155, 67, 114, 247, 238, 247, 148, 24, 214, 177, 191, 238, 240, 8, 27,
      186, 208, 95, 14, 47, 129, 117, 69, 207, 11, 89, 162, 79, 72, 241, 165]
  else if data = encode "US2812345" then
    [41, 222, 255, 74, 120, 1, 234, 21, 82, 158, 19, 67, 176, 206, 104, 16,
      242, 46, 201, 77, 79, 27, 176, 106, 153, 165, 191, 219, 142, 110, 69, 77]
  else List.replicate 32 0

def sampleSha : Sha256 where
  digest := sampleDigest
  length_digest data := by
    unfold sampleDigest
    split
    · rfl
    · split
      · rfl
      · exact List.length_replicate

def usForm (categoryId : Nat) (hmem : categoryId ∈ youtubeCategories) (maxResults : Int32)
    (hour : Int) : FormInput where
  region := "US"
  region_mem := List.mem_cons_self
  categoryId := categoryId
  categoryId_mem := hmem
  maxResults := maxResults
  now := hour * 3600000

/-- Twice the same choice in one hour, with different `max_results`; then categories
2 and 28 at hours of six and of five digits. -/
def sampleForms : List FormInput :=
  [usForm 0 (by decide) 50 480000, usForm 0 (by decide) 10 480000,
    usForm 2 (by decide) 50 812345, usForm 28 (by decide) 50 12345]

def usPost : JobRequest := { region := "US", maxResults := 50 }

def gbPost : JobRequest := { region := "GB", categoryId := 10, maxResults := 5 }

def sampleHistory : List Submission :=
  sampleForms.map .form ++ [.post usPost rfl, .post gbPost rfl]

private theorem sample_collisionFree : CollisionFree sampleSha sampleHistory := by
  have hall : ∀ f ∈ sampleForms, ∀ g ∈ sampleForms,
      truncatedHex (sampleDigest f.hashed) = truncatedHex (sampleDigest g.hashed) →
      f.hashed = g.hashed := by decide
  have hforms : ∀ f, .form f ∈ sampleHistory → f ∈ sampleForms := by
    intro f hf
    simpa [sampleHistory] using hf
  rintro _ ⟨f, hf, rfl⟩ _ ⟨g, hg, rfl⟩ hkey
  exact hall f (hforms f hf) g (hforms g hg) hkey

/-- A submission that is looked up by call `i`. -/
def asks (i : Nat) (sub : Submission) : List Act :=
  [.submitJob (sub.request sampleSha), .call i (.lookup .none Time.zero)]

def inserts (i : Nat) (id : String) : Act := .call i (.insert .none id Time.zero)

/-- The six submissions one after the other; the first of each key makes a job. -/
def mergingRun : List Act :=
  [.boot numWorkers] ++ asks 0 (.form (usForm 0 (by decide) 50 480000)) ++ [inserts 0 "job-1"] ++
    asks 1 (.form (usForm 0 (by decide) 10 480000)) ++
    asks 2 (.form (usForm 2 (by decide) 50 812345)) ++ [inserts 2 "job-2"] ++
    asks 3 (.form (usForm 28 (by decide) 50 12345)) ++
    asks 4 (.post usPost rfl) ++ [inserts 4 "job-3"] ++ asks 5 (.post gbPost rfl)

def mergedEnd : State := (run step (State.cold .empty) mergingRun).getD (State.cold .empty)

private theorem run_mergingRun : run step (State.cold .empty) mergingRun = some mergedEnd := by
  rfl

private theorem mergedEnd_reachable :
    Reachable Migrated step (FromHistory sampleSha sampleHistory) mergedEnd :=
  .of_run rfl run_mergingRun (by decide)

theorem merged_of_reachable_form :
    (∃ sub ∈ sampleHistory, ∃ r, mergedEnd.db.jobs.byId "job-1" = some r ∧
      CreatedFor (sub.request sampleSha) r ∧
      Merges (.form (usForm 0 (by decide) 10 480000)) sub) ∧
    ∃ c ∈ mergedEnd.calls, ∃ now, c.point = .returned (replyOf now (.existing "job-1")) := by
  have hcall : ∃ c ∈ mergedEnd.calls, c.handler = .submitJob ∧ c.hasReturned = true ∧
      c.answers =
        [((usForm 0 (by decide) 10 480000).request sampleSha, .existing "job-1")] := by
    decide
  obtain ⟨c, hc, hhandler, hreturned, hanswers⟩ := hcall
  have hanswer : ((usForm 0 (by decide) 10 480000).request sampleSha, .existing "job-1") ∈
      c.answers := by
    rw [hanswers]
    exact List.mem_singleton.mpr rfl
  obtain ⟨-, hmerged, htells⟩ :=
    merged_of_reachable sample_collisionFree mergedEnd_reachable hc hanswer
  obtain ⟨sub, hsub, r, hr, hcreated, -, hmerges⟩ :=
    hmerged (.form (usForm 0 (by decide) 10 480000)) (by decide) rfl
  refine ⟨⟨sub, hsub, r, hr, hcreated, hmerges⟩, c, hc, ?_⟩
  cases htells hreturned with
  | submitJob req answer now hsingle hpoint =>
      obtain ⟨-, rfl⟩ := Prod.mk.inj (List.singleton_inj.mp (hanswers.symm.trans hsingle))
      exact ⟨now, hpoint⟩
  | submitBatch b hbatch _ => cases hhandler.symm.trans hbatch
  | brokenOff b hbatch _ => cases hhandler.symm.trans hbatch

/-- Region, category and `max_results` of each request that was given an existing job,
and of that job. -/
def mergedColumns (s : State) :
    List ((String × Int32 × Int32) × Option (String × Int32 × Int32)) :=
  s.calls.flatMap fun c => c.answers.filterMap fun
    | (req, .existing id) =>
        some ((req.region, req.categoryId, req.maxResults),
          (s.db.jobs.byId id).map fun r => (r.region, r.categoryId, r.maxResults))
    | (_, .created _) | (_, .failed) => none

/-- A form is given the job of one with another `max_results`, or with another category
and hour; and a POST without a key that of a POST for another region. -/
theorem merged_unequal :
    CollisionFree sampleSha sampleHistory ∧
      Reachable Migrated step (FromHistory sampleSha sampleHistory) mergedEnd ∧
      mergedColumns mergedEnd =
        [(("US", 0, 10), some ("US", 0, 50)), (("US", 28, 50), some ("US", 2, 50)),
          (("GB", 10, 5), some ("US", 0, 50))] :=
  ⟨sample_collisionFree, mergedEnd_reachable, by decide⟩

end TrendingPipeline.System.Dedup
