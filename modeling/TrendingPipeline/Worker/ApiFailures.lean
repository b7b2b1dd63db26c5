/- Unit: TrendingPipeline/Worker/ApiFailures
   source: backend/worker/worker.go, backend/youtube/client.go
   digest: Which answers of the API the worker takes for a successful ingest. -/

import TrendingPipeline.Worker.Release

set_option autoImplicit false
set_option relaxedAutoImplicit false

namespace TrendingPipeline.Worker.ApiFailures

open TrendingPipeline.Base.Calendar (Time)
open TrendingPipeline.Store.Tables (Db RowState)
open TrendingPipeline.Store.Statements
open TrendingPipeline.Worker.ProcessJob
open TrendingPipeline.Worker.Machine (inputAt step)
open TrendingPipeline.Worker.Endings
open TrendingPipeline.Worker.Release (sampleDb sampleDb_unfinished sampleJob)
open TrendingPipeline.Youtube.FetchTrending (HttpResult decodeBody fetchTrending fetchTrending_ok
  fetchTrending_ok_iff params)

/-- The attempt is made and the API answers it with this status and body. -/
structure Answered (env : Env) (job : Job) (attempt status : Nat) (body : String) : Prop where
  tried : Tried env job attempt
  sent : 0 ≤ job.req.maxResults.toInt
  received : env.get attempt (params env.client job.req) = .response status body

def is2xx (status : Nat) : Prop := 200 ≤ status ∧ status < 300

def EndsIn (env : Env) (db : Db) (job : Job) (state : RowState) : Prop :=
  ∃ r, (processJob env db job).db.jobs.byId job.id = some r ∧ r.state = state

/-- From the fetch of the attempt the worker goes on to record a failed attempt. -/
def TreatedAsFailed (env : Env) (job : Job) (attempt : Nat) : Prop :=
  ∀ db, step job (inputAt env (.fetch attempt)) db (.fetch attempt) = (.goto (.retry attempt), db)

/-- A failed call of the API is never recorded as a successful ingest. -/
structure FailuresRecorded (env : Env) (db : Db) (job : Job) : Prop where
  done_of_200 : EndsIn env db job .done → ∃ attempt body, Answered env job attempt 200 body
  non2xx_failed : ∀ attempt status body, Answered env job attempt status body →
    ¬ is2xx status → TreatedAsFailed env job attempt
  dead_after_third : (∀ attempt, 1 ≤ attempt → attempt ≤ maxAttempts →
    ∃ status body, Answered env job attempt status body ∧ ¬ is2xx status) →
    env.dead ≠ .lost → EndsIn env db job .dead

/-- The bodies that decode came with a status that means success; one that came with
a status other than 200 leads to `done` only after an attempt that received a 200. -/
structure StatusesAgree (env : Env) (db : Db) (job : Job) : Prop where
  success : ∀ attempt status body, Answered env job attempt status body →
    (decodeBody body).isSome → is2xx status
  ok : ∀ attempt status body, Answered env job attempt status body →
    (decodeBody body).isSome → status ≠ 200 → Completes env db job → env.completed ≠ .lost →
    ∃ attempt' body', Answered env job attempt' 200 body'

private theorem Answered.fetch_ok_iff {env : Env} {job : Job} {attempt status : Nat} {body : String}
    (h : Answered env job attempt status body) :
    (∃ videos, env.fetch job attempt = .returned (.ok videos)) ↔ (decodeBody body).isSome := by
  refine (fetchTrending_ok_iff h.sent).trans ⟨?_, fun hbody => ⟨status, body, h.received, hbody⟩⟩
  rintro ⟨status', body', hget, hbody⟩
  obtain ⟨-, rfl⟩ := HttpResult.response.inj (hget.symm.trans h.received)
  exact hbody

private theorem treatedAsFailed_iff {env : Env} {job : Job} {attempt : Nat} :
    TreatedAsFailed env job attempt ↔ ∃ e, env.fetch job attempt = .returned (.error e) := by
  unfold TreatedAsFailed step Env.fetch
  simp only [inputAt]
  generalize fetchTrending env.client (env.get attempt) (env.fetchClock attempt) job.req job.id = o
  constructor
  · intro h
    have hdb := congrArg Prod.fst (h .empty)
    split at hdb <;> simp_all
  · rintro ⟨e, rfl⟩ db
    rfl

private theorem Answered.treatedAsFailed_iff {env : Env} {job : Job} {attempt status : Nat}
    {body : String} (h : Answered env job attempt status body) :
    TreatedAsFailed env job attempt ↔ decodeBody body = none := by
  rw [ApiFailures.treatedAsFailed_iff, ← Option.not_isSome_iff_eq_none, ← h.fetch_ok_iff]
  have hpanic : env.fetch job attempt ≠ .panicked := by
    rw [Ne, fetch_panicked_iff]
    exact not_lt.mpr h.sent
  cases hfetch : env.fetch job attempt with
  | panicked => exact absurd hfetch hpanic
  | returned result => cases result <;> simp

private theorem answered_of_ok {env : Env} {job : Job} {attempt : Nat} {videos}
    (htried : Tried env job attempt) (hfetch : env.fetch job attempt = .returned (.ok videos)) :
    ∃ status body, Answered env job attempt status body ∧ (decodeBody body).isSome := by
  have hsent : 0 ≤ job.req.maxResults.toInt := by
    by_contra hneg
    rw [fetch_panicked_iff.mpr (not_le.mp hneg)] at hfetch
    cases hfetch
  obtain ⟨⟨status, body, result, hget, hbody, -⟩, -⟩ := fetchTrending_ok hfetch
  exact ⟨status, body, ⟨htried, hsent, hget⟩, by simp [hbody]⟩

private theorem not_done_of_unfinished {db : Db} {id : String} (h : Unfinished db id) :
    ¬ ∃ r, db.jobs.byId id = some r ∧ r.state = .done := by
  rintro ⟨r, hr, hdone⟩
  exact h.not_finished ⟨r, hr, by rw [hdone]; rfl⟩

private theorem endsIn_done_iff {env : Env} {db : Db} {job : Job} (hrow : Unfinished db job.id) :
    EndsIn env db job .done ↔ Completes env db job ∧ env.completed ≠ .lost := by
  unfold EndsIn
  cases processJob_endsBy env hrow with
  | panicked hexit hstarted hneg hopen =>
      refine ⟨fun hdone => absurd hdone (not_done_of_unfinished hopen), ?_⟩
      rintro ⟨⟨attempt, videos, -, hfetch, -⟩, -⟩
      rw [fetch_panicked_iff.mpr hneg] at hfetch
      cases hfetch
  | completed mid fetched inserted hexit hcompletes hopen hdb =>
      rw [hdb, updateJobCompleted]
      constructor
      · intro hdone
        refine ⟨hcompletes, fun hlost => not_done_of_unfinished hopen ?_⟩
        rw [hlost] at hdone
        exact hdone
      · rintro ⟨-, hne⟩
        obtain ⟨r, hr, -⟩ := hopen
        have hlast := byId_exec_updateJob env.completed
          (completed env.completedAt fetched inserted) hr
        rw [hlast, if_neg hne]
        exact ⟨_, rfl, rfl⟩
  | gaveUp mid reason hexit hnot hcap hopen hdb =>
      rw [hdb, updateJobDead]
      refine ⟨?_, fun h => absurd h.1 hnot⟩
      intro hdone
      by_cases hlost : env.dead = .lost
      · rw [hlost] at hdone
        exact absurd hdone (not_done_of_unfinished hopen)
      · obtain ⟨r, hr, -⟩ := hopen
        have hlast := byId_exec_updateJob env.dead (dead reason.message) hr
        rw [hlast, if_neg hlost] at hdone
        obtain ⟨r', hr', hstate⟩ := hdone
        obtain rfl := Option.some.inj hr'
        cases hstate

/-- A run that neither completes nor panics ends in `dead` if UpdateJobDead takes effect. -/
private theorem endsIn_dead {env : Env} {db : Db} {job : Job} (hrow : Unfinished db job.id)
    (hnot : ¬ Completes env db job) (hcap : 0 ≤ job.req.maxResults.toInt)
    (hdead : env.dead ≠ .lost) : EndsIn env db job .dead := by
  unfold EndsIn
  cases processJob_endsBy env hrow with
  | panicked hexit hstarted hneg hopen => omega
  | completed mid fetched inserted hexit hcompletes hopen hdb => exact absurd hcompletes hnot
  | gaveUp mid reason hexit hnot' hcap' hopen hdb =>
      obtain ⟨r, hr, -⟩ := hopen
      have hlast := byId_exec_updateJob env.dead (dead reason.message) hr
      rw [hdb, updateJobDead, hlast, if_neg hdead]
      exact ⟨_, rfl, rfl⟩

/-- Failed calls are recorded as such exactly when the statuses agree with the bodies. -/
theorem failuresRecorded_iff {env : Env} {db : Db} {job : Job} (hrow : Unfinished db job.id) :
    FailuresRecorded env db job ↔ StatusesAgree env db job := by
  constructor
  · intro h
    constructor
    · intro attempt status body hans hbody
      by_contra hstatus
      have hfailed := hans.treatedAsFailed_iff.mp (h.non2xx_failed attempt status body hans hstatus)
      simp [hfailed] at hbody
    · intro _ _ _ _ _ _ hcompletes hne
      exact h.done_of_200 ((endsIn_done_iff hrow).mpr ⟨hcompletes, hne⟩)
  · intro h
    have hfailed : ∀ attempt status body, Answered env job attempt status body →
        ¬ is2xx status → TreatedAsFailed env job attempt := by
      intro attempt status body hans hstatus
      refine hans.treatedAsFailed_iff.mpr ?_
      by_contra hbody
      exact hstatus (h.success attempt status body hans (Option.isSome_iff_ne_none.mpr hbody))
    refine ⟨?_, hfailed, ?_⟩
    · intro hdone
      obtain ⟨hcompletes, hne⟩ := (endsIn_done_iff hrow).mp hdone
      obtain ⟨attempt, videos, htried, hfetch, -⟩ := id hcompletes
      obtain ⟨status, body, hans, hbody⟩ := answered_of_ok htried hfetch
      by_cases h200 : status = 200
      · exact ⟨attempt, body, h200 ▸ hans⟩
      · exact h.ok attempt status body hans hbody h200 hcompletes hne
    · intro hall hdead
      obtain ⟨_, _, hfirst, -⟩ := hall 1 le_rfl (by decide)
      refine endsIn_dead hrow ?_ hfirst.sent hdead
      rintro ⟨attempt, videos, htried, hfetch, -⟩
      obtain ⟨status, body, hans, hstatus⟩ := hall attempt htried.first htried.last
      have herr := ApiFailures.treatedAsFailed_iff.mp (hfailed attempt status body hans hstatus)
      obtain ⟨e, he⟩ := herr
      rw [hfetch] at he
      cases he

def quotaExceeded : Env where
  get := fun _ _ => .response 403 "\x7b\"error\": \x7b\"code\": 403\x7d\x7d"

theorem failuresRecorded_iff_quotaExceeded :
    FailuresRecorded quotaExceeded sampleDb sampleJob ↔
      StatusesAgree quotaExceeded sampleDb sampleJob :=
  failuresRecorded_iff sampleDb_unfinished

/-- The error object decodes as a response without items: the job is `done`, though
no call succeeded. -/
theorem quotaExceeded_done : EndsIn quotaExceeded sampleDb sampleJob .done ∧
    ¬ FailuresRecorded quotaExceeded sampleDb sampleJob := by
  have hdone : EndsIn quotaExceeded sampleDb sampleJob .done := by
    have hstate : ((processJob quotaExceeded sampleDb sampleJob).db.jobs.byId sampleJob.id).map
        (·.state) = some .done := by decide
    obtain ⟨r, hr, hs⟩ := Option.map_eq_some_iff.mp hstate
    exact ⟨r, hr, hs⟩
  refine ⟨hdone, ?_⟩
  intro h
  obtain ⟨attempt, body, hans⟩ := h.done_of_200 hdone
  cases hans.received

end TrendingPipeline.Worker.ApiFailures
