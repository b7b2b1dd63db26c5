/- Unit: TrendingPipeline/System/RetrySchedule
   source: backend/worker/worker.go, backend/db/db.go
   digest: Which scheduled retries are made, and the attempts a row counts against its maximum. -/

import TrendingPipeline.Frontend.JobDetail
import TrendingPipeline.System.Lifecycle

set_option autoImplicit false
set_option relaxedAutoImplicit false

namespace TrendingPipeline.System.RetrySchedule

open TrendingPipeline.Base.Holdings (mem_holdings mem_set_of_ne)
open TrendingPipeline.Base.Runs
open TrendingPipeline.Store.Tables (Db JobProgress JobRow)
open TrendingPipeline.Store.Statements
open TrendingPipeline.Worker.ProcessJob (Job maxAttempts toInt_ofNat_of_le)
open TrendingPipeline.Worker.Machine (Input Point)
open TrendingPipeline.Worker.Effects
open TrendingPipeline.Youtube.FetchTrending (fetchTrending_panicked_iff)
open TrendingPipeline.Etl.WatchJob (scanJobStatus)
open TrendingPipeline.Frontend.JobDetail (attemptRow attemptRow_eq attemptText)
open TrendingPipeline.System.Step
open TrendingPipeline.System.Custody
open TrendingPipeline.System.ExactlyOnce (submission)
open TrendingPipeline.System.Lifecycle
open TrendingPipeline.System.Rows

def Scheduled (r : JobRow) : Prop := r.state = .retrying ∧ r.nextRetryAt.isSome = true

instance (r : JobRow) : Decidable (Scheduled r) := inferInstanceAs (Decidable (_ ∧ _))

/-- The fetch after the `k`-th failed one: it comes when the backoff is over, or it
is the next statement, or it was made. -/
def Retries (job : Job) (k : Int) : Point → Prop
  | .sleep attempt =>
      (attempt : Int) = k ∧ ∀ (inp : Input) (db : Db),
        (Worker.Machine.step job inp db (.sleep attempt)).1 = .goto (.fetch (attempt + 1))
  | .fetch attempt | .retry attempt | .ingest attempt _ _ _ => (attempt : Int) = k + 1
  -- the insert that failed was of a video of that fetch
  | .dead .inserting => True
  | .start | .dead .started | .dead .retrying | .dead .exhausted => False

def Retried (s : State) (id : String) (k : Int) : Prop :=
  ∃ job p, .busy job p ∈ s.workers ∧ job.id = id ∧ Retries job k p

/-- The attempts counted are within the maximum, and so are those JobDetail shows. -/
structure AttemptFits (r : JobRow) : Prop where
  retrying : r.state = .retrying → r.attempt.toInt < r.maxAttempts.toInt
  shown : (attemptRow (scanJobStatus r)).1 ≤ (attemptRow (scanJobStatus r)).2

def Performed (s : State) : Prop :=
  ∀ id r, s.db.jobs.byId id = some r → Scheduled r → Retried s id r.attempt.toInt

structure RetriesReal (s : State) : Prop where
  performed : Performed s
  fits : AllRows AttemptFits s

private theorem attemptFits_iff {r : JobRow} :
    AttemptFits r ↔ r.attempt.toInt < r.maxAttempts.toInt := by
  have hshown : (attemptRow (scanJobStatus r)).1 ≤ (attemptRow (scanJobStatus r)).2 ↔
      r.attempt.toInt < r.maxAttempts.toInt := by
    rw [attemptRow_eq]
    exact Int.add_one_le_iff
  constructor
  · exact fun h => hshown.mp h.shown
  · exact fun h => ⟨fun _ => h, hshown.mpr h⟩

def recordsLastAt (_ : Fault) : Point → Bool
  | .retry attempt => maxAttempts ≤ attempt
  | .start | .fetch _ | .sleep _ | .ingest _ _ _ _ | .dead _ => false

/-- The process ends, by `main` returning or by a panic in FetchTrending. -/
def endsProcess (s : State) : Act → Bool
  | .exit => true
  | .work w _ =>
      match s.workers[w]? with
      | some (.busy job (.fetch _)) => job.req.maxResults.toInt < 0
      | _ => false
  | _ => false

def cutsRetry (s : State) (a : Act) : Bool :=
  endsProcess s a && s.db.jobs.rows.any fun r => Scheduled r

variable {s t : State} {a : Act}

private theorem cutsRetry_eq_false_iff (hends : endsProcess s a = true) :
    cutsRetry s a = false ↔ ∀ id r, s.db.jobs.byId id = some r → ¬ Scheduled r := by
  rw [cutsRetry, hends, Bool.true_and, List.any_eq_false]
  constructor
  · intro h id r hr hscheduled
    exact h r (Store.Tables.JobsTable.byId_eq_some_iff.mp hr).1 (decide_eq_true hscheduled)
  · intro h r hmem hscheduled
    exact h r.jobId r (Store.Tables.JobsTable.byId_eq_some_iff.mpr ⟨hmem, rfl⟩)
      (of_decide_eq_true hscheduled)

private theorem cutsRetry_of_not_ends (hends : endsProcess s a = false) :
    cutsRetry s a = false := by
  rw [cutsRetry, hends, Bool.false_and]

section Attempts

variable {job : Job} {inp : Input} {db db' : Db} {p : Point} {next : Worker.Machine.Next}
  {r r' : JobRow}

private theorem attempts_of_steps (hclean : inp.fault = .none) (h : Steps job inp db p next db')
    (hr : db.jobs.byId job.id = some r) (hr' : db'.jobs.byId job.id = some r') :
    r'.maxAttempts = r.maxAttempts ∧
      (r'.attempt = r.attempt ∧ recordsLastAt inp.fault p = false ∨
        ∃ attempt, p = .retry attempt ∧ next = .goto (.sleep attempt)) := by
  have hsame : db'.jobs = db.jobs → r' = r := by
    intro hjobs
    rw [hjobs, hr] at hr'
    exact (Option.some.inj hr').symm
  have hupdated : ∀ g, db' = updateJob db job.id g → r' = r.apply g := by
    rintro g rfl
    rw [byId_updateJob_self g hr] at hr'
    exact (Option.some.inj hr').symm
  cases h with
  | started =>
      obtain rfl := hupdated _ rfl
      exact ⟨rfl, .inl ⟨rfl, rfl⟩⟩
  | startFailed _ hfault _ => exact absurd hclean hfault
  | panicked =>
      obtain rfl := hsame rfl
      exact ⟨rfl, .inl ⟨rfl, rfl⟩⟩
  | fetchFailed =>
      obtain rfl := hsame rfl
      exact ⟨rfl, .inl ⟨rfl, rfl⟩⟩
  | fetched =>
      obtain rfl := hsame rfl
      exact ⟨rfl, .inl ⟨rfl, rfl⟩⟩
  | retried attempt =>
      obtain rfl := hupdated _ rfl
      exact ⟨rfl, .inr ⟨attempt, rfl, rfl⟩⟩
  | retryFailed _ _ hfault _ => exact absurd hclean hfault
  | slept =>
      obtain rfl := hsame rfl
      exact ⟨rfl, .inl ⟨rfl, rfl⟩⟩
  | exhausted =>
      obtain rfl := hsame rfl
      exact ⟨rfl, .inl ⟨rfl, rfl⟩⟩
  | inserted _ _ _ _ _ _ _ hinsert =>
      obtain rfl := hsame (insertVideo_jobs hinsert)
      exact ⟨rfl, .inl ⟨rfl, rfl⟩⟩
  | insertFailed _ _ _ _ _ _ hafter =>
      obtain rfl := hsame hafter.jobs_of_video
      exact ⟨rfl, .inl ⟨rfl, rfl⟩⟩
  | completed =>
      obtain rfl := hupdated _ rfl
      exact ⟨rfl, .inl ⟨rfl, rfl⟩⟩
  | completionLost _ _ _ hlost => rw [hclean] at hlost; cases hlost
  | died =>
      obtain rfl := hupdated _ rfl
      exact ⟨rfl, .inl ⟨rfl, rfl⟩⟩
  | deathLost _ hlost => rw [hclean] at hlost; cases hlost

private theorem attemptFits_work_iff (hclean : inp.fault = .none) (h : Steps job inp db p next db')
    (hr : db.jobs.byId job.id = some r) (hr' : db'.jobs.byId job.id = some r')
    (hmax : r.maxAttempts = 3) (hfits : AttemptFits r) (hafter : RowAfter inp r r' next) :
    AttemptFits r' ↔ recordsLastAt inp.fault p = false := by
  obtain ⟨hkept, hattempt⟩ := attempts_of_steps hclean h hr hr'
  rw [attemptFits_iff] at hfits ⊢
  rw [hkept]
  rcases hattempt with ⟨hsame, hlast⟩ | ⟨attempt, rfl, rfl⟩
  · rw [hsame]
    exact iff_of_true hfits hlast
  · obtain ⟨-, hopen⟩ := hafter
    rw [hmax, hopen.attempt, toInt_ofNat_of_le hopen.bound, recordsLastAt, decide_eq_false_iff_not]
    have hthree : (3 : Int32).toInt = 3 := rfl
    rw [hthree]
    simp only [maxAttempts]
    omega

end Attempts

def Limited (r : JobRow) : Prop := r.maxAttempts = 3

private theorem limited_step (h : Reachable Cold step Anything s) (hlimited : AllRows Limited s)
    (hhealthy : Healthy s a) (hstep : step s a = some t) : AllRows Limited t := by
  have hnever : atPoint (fun _ _ => false) s a = false := by
    cases a with
    | work w inp =>
        simp only [atPoint]
        split <;> rfl
    | _ => rfl
  refine (allRows_step_iff (· = .none) ?_ ?_ h hlimited hhealthy.1 hstep).mpr hnever
  · exact fun _ _ _ => rfl
  · intro job inp db db' p next r r' hclean hsteps hr hr' hold _ _
    rw [Limited, (attempts_of_steps hclean hsteps hr hr').1]
    exact iff_of_true hold rfl

private theorem limited_of_reachable (h : Reachable Migrated step Healthy s) :
    AllRows Limited s := by
  refine (h.invariant (I := fun s => Reachable Cold step Anything s ∧ AllRows Limited s) ?_ ?_).2
  · rintro _ rfl
    exact ⟨⟨_, ⟨.empty, rfl⟩, .refl⟩, fun id r hr => by cases hr⟩
  · rintro s a t ⟨hreach, hlimited⟩ hhealthy hstep
    exact ⟨hreach.next trivial hstep, limited_step hreach hlimited hhealthy hstep⟩

private theorem fits_step_iff (h : Reachable Migrated step Healthy s)
    (hfits : AllRows AttemptFits s)
    (hhealthy : Healthy s a) (hstep : step s a = some t) :
    AllRows AttemptFits t ↔ atPoint recordsLastAt s a = false := by
  have hcold : Reachable Cold step Anything s := cold_of_migrated (h.mono fun _ _ _ => trivial)
  have hlimited := limited_of_reachable h
  have hboth : AllRows (fun r => Limited r ∧ AttemptFits r) t ↔
      atPoint recordsLastAt s a = false := by
    refine allRows_step_iff (· = .none) ?_ ?_ hcold ?_ hhealthy.1 hstep
    · intro now id req
      have hlt : (0 : Int32).toInt < (3 : Int32).toInt := by decide
      exact ⟨rfl, attemptFits_iff.mpr hlt⟩
    · intro job inp db db' p next r r' hclean hsteps hr hr' hold _ hafter
      have hmax : Limited r' := (attempts_of_steps hclean hsteps hr hr').1.trans hold.1
      rw [← attemptFits_work_iff hclean hsteps hr hr' hold.1 hold.2 hafter]
      exact and_iff_right hmax
    · exact fun id r hr => ⟨hlimited id r hr, hfits id r hr⟩
  rw [← hboth]
  constructor
  · exact fun hall id r hr => ⟨limited_step hcold hlimited hhealthy hstep id r hr, hall id r hr⟩
  · exact fun hall id r hr => (hall id r hr).2

private theorem retries_iff {job : Job} {p : Point} {r : JobRow} (hclean : p ≠ .dead .retrying)
    (hat : RowAt (.working p) r.toJobProgress) (hscheduled : Scheduled r) :
    Retries job r.attempt.toInt p ↔
      p ≠ .dead .exhausted ∧ ∀ attempt, p = .sleep attempt → attempt < maxAttempts := by
  have hnext : ∀ attempt : Nat,
      (∃ k, attempt = k + 1 ∧ k < maxAttempts ∧ Attempted k r.toJobProgress) →
      (attempt : Int) = r.attempt.toInt + 1 := by
    rintro _ ⟨k, rfl, -, hk⟩
    rw [hk.attempt, toInt_ofNat_of_le hk.bound]
    rfl
  cases p with
  | start =>
      have hwait : r.toJobProgress = {} := hat
      have hstate := hscheduled.1
      rw [hwait] at hstate
      cases hstate
  | fetch attempt => exact iff_of_true (hnext attempt hat) (by simp)
  | retry attempt => exact iff_of_true (hnext attempt hat) (by simp)
  | ingest attempt todo fetched count => exact iff_of_true (hnext attempt hat.1) (by simp)
  | sleep attempt =>
      obtain ⟨-, hk⟩ := hat
      have hattempt : (attempt : Int) = r.attempt.toInt := by
        rw [hk.attempt, toInt_ofNat_of_le hk.bound]
      by_cases hlt : attempt < maxAttempts
      · refine iff_of_true ⟨hattempt, fun inp db => ?_⟩ ⟨by simp, ?_⟩
        · simp only [Worker.Machine.step]
          rw [if_pos (Nat.succ_lt_succ hlt)]
        · rintro _ ⟨⟩
          exact hlt
      · refine iff_of_false ?_ ?_
        · rintro ⟨-, hsteps⟩
          have hfetch := hsteps {} .empty
          simp only [Worker.Machine.step] at hfetch
          rw [if_neg fun h => hlt (Nat.lt_of_succ_lt_succ h)] at hfetch
          cases hfetch
        · exact fun h => hlt (h.2 attempt rfl)
  | dead reason =>
      cases reason with
      | started =>
          rcases hat with hwait | hk
          · have hwait' : r.toJobProgress = {} := hwait
            have hstate := hscheduled.1
            rw [hwait'] at hstate
            cases hstate
          · have hstate := hk.state.symm.trans hscheduled.1
            cases hstate
      | retrying => exact absurd rfl hclean
      | inserting => exact iff_of_true trivial (by simp)
      | exhausted => exact iff_of_false id fun h => h.1 rfl

private theorem retried_iff {w : Nat} {job : Job} {p : Point} {k : Int}
    (h : Reachable Cold step Anything s) (hw : s.workers[w]? = some (.busy job p)) :
    Retried s job.id k ↔ Retries job k p := by
  have hheld : ∀ job' p', .busy job' p' ∈ s.workers → (job', .working p') ∈ (ofState s).held :=
    fun job' p' hmem => Multiset.mem_add.mpr (.inr (mem_holdings.mpr ⟨.busy job' p', hmem, rfl⟩))
  have hmem : .busy job p ∈ s.workers := List.mem_of_getElem? hw
  constructor
  · rintro ⟨job', p', hmem', hid, hretries⟩
    have hsame := Multiset.inj_on_of_nodup_map (heldIds_nodup (balanced_of_reachable h))
      _ (hheld job' p' hmem') _ (hheld job p hmem) hid
    obtain ⟨rfl, hstage⟩ := Prod.mk.inj hsame
    obtain rfl := Stage.working.inj hstage
    exact hretries
  · exact fun hretries => ⟨job, p, hmem, rfl, hretries⟩

def workersAfter (s : State) (w : Nat) (job : Job) : Worker.Machine.Next → List WorkerState
  | .goto q => s.workers.set w (.busy job q)
  | .returned => s.workers.set w .idle
  | .panicked => []

private theorem afterWork_workers (w : Nat) (job : Job) (p : Point) (inp : Input) :
    (s.afterWork w job p inp).workers =
      workersAfter s w job (Worker.Machine.step job inp s.db p).1 := by
  unfold State.afterWork
  dsimp only
  split
  · rename_i hnext
    rw [hnext]
    rfl
  · rename_i hnext
    rw [hnext]
    rfl
  · rename_i hnext
    rw [hnext]
    rfl

private theorem afterWork_phase (w : Nat) (job : Job) (p : Point) (inp : Input) :
    (s.afterWork w job p inp).phase = s.phase ∨ (s.afterWork w job p inp).workers = [] := by
  unfold State.afterWork
  dsimp only
  split
  · exact .inl rfl
  · exact .inl rfl
  · exact .inr rfl

private theorem idle_of_down (h : Reachable Cold step Anything s) : s.phase = .down → s.workers =
    [] := by
  refine h.invariant (I := fun s => s.phase = .down → s.workers = []) ?_ ?_
  · rintro _ ⟨db, rfl⟩ _
    rfl
  · intro s a t hdown _ hstep hphase
    cases acts_of_step hstep with
    | submitJob => exact hdown hphase
    | submitBatch => exact hdown hphase
    | call => exact hdown hphase
    | send => exact hdown hphase
    | receive w job rest hw _ =>
        rw [hdown hphase] at hw
        cases hw
    | work w inp job p hw =>
        rcases afterWork_phase (s := s) w job p inp with hsame | hnone
        · rw [hdown (hsame.symm.trans hphase)] at hw
          cases hw
        · exact hnone
    | shutdown => cases hphase
    | exit => rfl
    | boot => cases hphase

private theorem performed_of_workers (hnot : ∀ w inp, a ≠ .work w inp) (hstep : step s a = some t)
    (hperformed : Performed s)
    (hworkers : ∀ job p, .busy job p ∈ s.workers → .busy job p ∈ t.workers) : Performed t := by
  have hkeep : ∀ id k, Retried s id k → Retried t id k := by
    rintro id k ⟨job, p, hmem, hid, hretries⟩
    exact ⟨job, p, hworkers job p hmem, hid, hretries⟩
  intro id r hr hscheduled
  cases touches_of_step hstep with
  | nothing _ hdb _ => exact hkeep id _ (hperformed id r (hdb ▸ hr) hscheduled)
  | insert jobId req now _ hinsert _ =>
      rw [byId_insertJob hinsert] at hr
      split at hr
      · obtain rfl := Option.some.inj hr
        cases hscheduled.1
      · exact hkeep id _ (hperformed id r hr hscheduled)
  | work w inp _ _ _ ha _ _ _ => exact absurd ha (hnot w inp)

private theorem performed_ended_iff (hworkers : t.workers = []) (hdb : t.db = s.db) :
    Performed t ↔ ∀ id r, s.db.jobs.byId id = some r → ¬ Scheduled r := by
  constructor
  · intro hperformed id r hr hscheduled
    obtain ⟨job, p, hmem, -, -⟩ := hperformed id r (by rw [hdb, hr]) hscheduled
    rw [hworkers] at hmem
    cases hmem
  · intro hnone id r hr hscheduled
    rw [hdb] at hr
    exact absurd hscheduled (hnone id r hr)

section Work

variable {w : Nat} {job : Job} {inp : Input} {db' : Db} {p : Point} {next : Worker.Machine.Next}
  {r r' : JobRow}

private theorem endsProcess_work (hw : s.workers[w]? = some (.busy job p))
    (hsteps : Steps job inp s.db p next db') :
    endsProcess s (.work w inp) = true ↔ next = .panicked := by
  have hnot : ∀ {fetched : Except Youtube.FetchTrending.FetchError
      (List Youtube.FetchTrending.Video)},
      Youtube.FetchTrending.fetchTrending inp.client inp.get inp.clock job.req job.id =
        .returned fetched → ¬ job.req.maxResults.toInt < 0 := by
    intro fetched hfetch hneg
    rw [fetchTrending_panicked_iff.mpr hneg] at hfetch
    cases hfetch
  simp only [endsProcess, hw]
  cases hsteps with
  | panicked attempt hneg => exact iff_of_true (decide_eq_true hneg) rfl
  | fetchFailed attempt e hfetch =>
      exact iff_of_false (by simpa using hnot hfetch) nofun
  | fetched attempt videos hfetch =>
      exact iff_of_false (by simpa using hnot hfetch) nofun
  | _ => exact iff_of_false nofun nofun

private theorem recordsLastAt_of_returned {f : Fault}
    (hsteps : Steps job inp s.db p .returned db') :
    recordsLastAt f p = false := by
  cases hsteps with
  | _ => rfl

private theorem performed_others {y : WorkerState} (hperformed : Performed s)
    (hw : s.workers[w]? = some (.busy job p)) (hsteps : Steps job inp s.db p next t.db)
    (hworkers : t.workers = s.workers.set w y) {id : String} (hid : id ≠ job.id)
    (hr : t.db.jobs.byId id = some r) (hscheduled : Scheduled r) :
    Retried t id r.attempt.toInt := by
  rw [hsteps.byId_of_ne hid] at hr
  obtain ⟨job', p', hmem, hid', hretries⟩ := hperformed id r hr hscheduled
  refine ⟨job', p', ?_, hid', hretries⟩
  rw [hworkers]
  refine mem_set_of_ne hw hmem ?_
  rintro ⟨⟩
  exact hid hid'.symm

private theorem retries_work_iff {q : Point} (hclean : inp.fault = .none)
    (hsteps : Steps job inp s.db p (.goto q) db') (hr : s.db.jobs.byId job.id = some r)
    (hr' : db'.jobs.byId job.id = some r') (hbefore : Scheduled r → Retries job r.attempt.toInt p)
    (hat : RowAt (.working p) r.toJobProgress) (hafter : RowAt (.working q) r'.toJobProgress) :
    (Scheduled r' → Retries job r'.attempt.toInt q) ↔ recordsLastAt inp.fault p = false := by
  have hquiet : q ≠ .dead .retrying → q ≠ .dead .exhausted → (∀ n, q ≠ .sleep n) →
      Scheduled r' → Retries job r'.attempt.toInt q := by
    intro hretrying hexhausted hsleep hscheduled
    refine (retries_iff hretrying hafter hscheduled).mpr ⟨hexhausted, ?_⟩
    exact fun n hn => absurd hn (hsleep n)
  cases hsteps with
  | started => exact iff_of_true (hquiet nofun nofun nofun) rfl
  | startFailed _ hfault _ => exact absurd hclean hfault
  | fetchFailed => exact iff_of_true (hquiet nofun nofun nofun) rfl
  | fetched => exact iff_of_true (hquiet nofun nofun nofun) rfl
  | retried attempt =>
      have hnot : Point.sleep attempt ≠ .dead .retrying := nofun
      have hscheduled : Scheduled r' := by
        rw [byId_updateJob_self _ hr] at hr'
        obtain rfl := Option.some.inj hr'
        exact ⟨rfl, rfl⟩
      rw [imp_iff_right hscheduled, retries_iff hnot hafter hscheduled, recordsLastAt,
        decide_eq_false_iff_not, not_le]
      constructor
      · exact fun h => h.2 attempt rfl
      · rintro hlt
        refine ⟨nofun, ?_⟩
        rintro _ ⟨⟩
        exact hlt
  | retryFailed _ _ hfault _ => exact absurd hclean hfault
  | slept => exact iff_of_true (hquiet nofun nofun nofun) rfl
  | exhausted attempt hge =>
      have hnot : Point.sleep attempt ≠ .dead .retrying := nofun
      refine iff_of_true ?_ rfl
      intro hscheduled
      obtain rfl := Option.some.inj (hr'.symm.trans hr)
      have hlt := ((retries_iff hnot hat hscheduled).mp (hbefore hscheduled)).2 attempt rfl
      exact absurd hlt (not_lt.mpr hge)
  | inserted => exact iff_of_true (hquiet nofun nofun nofun) rfl
  | insertFailed => exact iff_of_true (hquiet nofun nofun nofun) rfl

private theorem cutsRetry_work_of_ne (hw : s.workers[w]? = some (.busy job p))
    (hsteps : Steps job inp s.db p next t.db) (hnext : next ≠ .panicked) :
    cutsRetry s (.work w inp) = false := by
  refine cutsRetry_of_not_ends (Bool.eq_false_iff.mpr ?_)
  rw [Ne, endsProcess_work hw hsteps]
  exact hnext

private theorem performed_work_iff (h : Reachable Cold step Anything s)
    (ht : Reachable Cold step Anything t)
    (hperformed : Performed s) (hclean : inp.fault = .none)
    (hw : s.workers[w]? = some (.busy job p)) (hsteps : Steps job inp s.db p next t.db)
    (hworkers : t.workers = workersAfter s w job next) :
    Performed t ↔ recordsLastAt inp.fault p = false ∧ cutsRetry s (.work w inp) = false := by
  have hheld : (job, .working p) ∈ (ofState s).held :=
    Multiset.mem_add.mpr (.inr (mem_holdings.mpr ⟨.busy job p, List.mem_of_getElem? hw, rfl⟩))
  obtain ⟨r, hr, hat⟩ := tended_of_reachable h _ hheld
  obtain ⟨r', hr', -, hafter⟩ := row_of_steps hsteps hr hat
  cases next with
  | goto q =>
      have hcuts := cutsRetry_work_of_ne hw hsteps nofun
      have hq : t.workers[w]? = some (.busy job q) := by
        rw [hworkers]
        exact List.getElem?_set_self (List.getElem?_eq_some_iff.mp hw).1
      have hbefore : Scheduled r → Retries job r.attempt.toInt p :=
        fun hscheduled => (retried_iff h hw).mp (hperformed job.id r hr hscheduled)
      rw [and_iff_left hcuts, ← retries_work_iff hclean hsteps hr hr' hbefore hat hafter]
      constructor
      · exact fun hall hscheduled => (retried_iff ht hq).mp (hall job.id r' hr' hscheduled)
      · intro hself id r'' hr'' hscheduled
        by_cases hid : id = job.id
        · subst hid
          obtain rfl := Option.some.inj (hr'.symm.trans hr'')
          exact (retried_iff ht hq).mpr (hself hscheduled)
        · exact performed_others hperformed hw hsteps hworkers hid hr'' hscheduled
  | returned =>
      have hcuts := cutsRetry_work_of_ne hw hsteps nofun
      refine iff_of_true ?_ ⟨recordsLastAt_of_returned hsteps, hcuts⟩
      intro id r'' hr'' hscheduled
      by_cases hid : id = job.id
      · subst hid
        obtain rfl := Option.some.inj (hr'.symm.trans hr'')
        rcases hafter with hclosed | ⟨hlost, -⟩
        · have hterminal := hclosed.terminal
          rw [hscheduled.1] at hterminal
          cases hterminal
        · rw [hclean] at hlost
          cases hlost
      · exact performed_others hperformed hw hsteps hworkers hid hr'' hscheduled
  | panicked =>
      have hdb : t.db = s.db := by
        generalize t.db = db' at hsteps
        cases hsteps
        rfl
      have hlast : recordsLastAt inp.fault p = false := by
        obtain ⟨attempt, rfl, -⟩ := hsteps.of_panicked
        rfl
      rw [and_iff_right hlast, performed_ended_iff hworkers hdb,
        cutsRetry_eq_false_iff ((endsProcess_work hw hsteps).mpr rfl)]

end Work

private theorem performed_step_iff (h : Reachable Cold step Anything s) (hperformed : Performed s)
    (hclean : a.fault = .none) (hstep : step s a = some t) :
    Performed t ↔ atPoint recordsLastAt s a = false ∧ cutsRetry s a = false := by
  have hkept : (∀ w inp, a ≠ .work w inp) → endsProcess s a = false →
      (∀ job p, .busy job p ∈ s.workers → .busy job p ∈ t.workers) →
      (Performed t ↔ atPoint recordsLastAt s a = false ∧ cutsRetry s a = false) := by
    intro hnot hends hworkers
    refine iff_of_true (performed_of_workers hnot hstep hperformed hworkers) ?_
    exact ⟨atPoint_of_not_work hnot, cutsRetry_of_not_ends hends⟩
  cases acts_of_step hstep with
  | submitJob => exact hkept (by simp) rfl fun _ _ hmem => hmem
  | submitBatch => exact hkept (by simp) rfl fun _ _ hmem => hmem
  | call => exact hkept (by simp) rfl fun _ _ hmem => hmem
  | send => exact hkept (by simp) rfl fun _ _ hmem => hmem
  | receive w job rest hw _ =>
      exact hkept (by simp) rfl fun _ _ hmem => mem_set_of_ne hw hmem (by simp)
  | work w inp job p hw =>
      have hbad : atPoint recordsLastAt s (.work w inp) = recordsLastAt inp.fault p := by
        simp only [atPoint, hw]
      have hsteps : Steps job inp s.db p (Worker.Machine.step job inp s.db p).1
          (s.afterWork w job p inp).db := by
        rw [s.afterWork_db]
        exact steps_step job inp s.db p
      rw [hbad]
      exact performed_work_iff h (h.next trivial hstep) hperformed hclean hw hsteps
        (afterWork_workers w job p inp)
  | shutdown => exact hkept (by simp) rfl fun _ _ hmem => hmem
  | exit =>
      rw [performed_ended_iff rfl rfl, cutsRetry_eq_false_iff rfl]
      exact (and_iff_right rfl).symm
  | boot n hdown =>
      refine hkept (by simp) rfl ?_
      intro job p hmem
      rw [idle_of_down h hdown] at hmem
      cases hmem

/-- On a healthy database, whatever the fetches give: the announced retries are made
and the counted attempts fit throughout a run exactly when no worker records a third
failed attempt and no process ends before a retry; the attempts fit exactly when no
worker records a third failed attempt. -/
theorem retriesReal_iff {acts : List Act} (hhealthy : Meets step Healthy (State.cold .empty) acts)
    (hrun : run step (State.cold .empty) acts = some t) :
    (Always step RetriesReal (State.cold .empty) acts ↔
      Meets step (fun s a => atPoint recordsLastAt s a = false ∧ cutsRetry s a = false)
        (State.cold .empty) acts) ∧
      (Always step (AllRows AttemptFits) (State.cold .empty) acts ↔
        Meets step (fun s a => atPoint recordsLastAt s a = false) (State.cold .empty) acts) := by
  have hstays : ∀ s a t, Reachable Migrated step Healthy s → Healthy s a → step s a = some t →
      Reachable Migrated step Healthy t := fun s a t hreach hok hstep => hreach.next hok hstep
  have hinit : Reachable Migrated step Healthy (State.cold .empty) := ⟨_, rfl, .refl⟩
  have hfits : AllRows AttemptFits (State.cold .empty) := fun id r hr => by cases hr
  have hperformed : Performed (State.cold .empty) := fun id r hr => by cases hr
  constructor
  · refine always_iff_meets hstays ?_ hinit ⟨hperformed, hfits⟩ hhealthy hrun
    intro s a t hreach hreal hok hstep
    have hcold : Reachable Cold step Anything s :=
      cold_of_migrated (hreach.mono fun _ _ _ => trivial)
    have hmade := performed_step_iff hcold hreal.performed hok.1 hstep
    have hcounted := fits_step_iff hreach hreal.fits hok hstep
    constructor
    · exact fun h => hmade.mp h.performed
    · exact fun h => ⟨hmade.mpr h, hcounted.mpr h.1⟩
  · refine always_iff_meets hstays ?_ hinit hfits hhealthy hrun
    exact fun s a t hreach hall hok hstep => fits_step_iff hreach hall hok hstep

def failedAttempt : List Act := [.work 0 {}, .work 0 {}, .work 0 {}]

def twoFailures : List Act :=
  submission ++ [.call 0 (.send Base.Calendar.Time.zero), .receive 0, .work 0 {}] ++
    failedAttempt ++ failedAttempt

def thirdFailure : List Act := twoFailures ++ [.work 0 {}, .work 0 {}]

def givenUp : List Act := thirdFailure ++ [.work 0 {}, .work 0 {}]

def afterRun (acts : List Act) : State :=
  (run step (State.cold .empty) acts).getD (State.cold .empty)

private theorem run_twoFailures :
    run step (State.cold .empty) twoFailures = some (afterRun twoFailures) := by
  rfl

theorem retriesReal_iff_twoFailures :
    Always step RetriesReal (State.cold .empty) twoFailures := by
  rw [(retriesReal_iff (by decide) run_twoFailures).1]
  decide

private theorem not_retriesReal {id : String} {n : Int32}
    (h : (s.db.jobs.byId id).map (fun r => (r.attempt, r.maxAttempts)) = some (n, n)) :
    ¬ RetriesReal s := by
  obtain ⟨r, hr, hcolumns⟩ := Option.map_eq_some_iff.mp h
  obtain ⟨hattempt, hmax⟩ := Prod.mk.inj hcolumns
  intro hreal
  have hlt := attemptFits_iff.mp (hreal.fits id r hr)
  rw [hattempt, hmax] at hlt
  exact lt_irrefl _ hlt

/-- The third failure leaves the row retrying with a time for the next try; the job
dies all the same, and JobDetail counts a fourth attempt of three. -/
theorem thirdFailure_announcesRetry :
    run step (State.cold .empty) givenUp = some (afterRun givenUp) ∧
      Meets step Healthy (State.cold .empty) givenUp ∧
      ((afterRun thirdFailure).db.jobs.byId "job-1").map
          (fun r => (r.state, r.nextRetryAt.isSome, r.attempt, r.maxAttempts)) =
        some (.retrying, true, 3, 3) ∧
      ((afterRun givenUp).db.jobs.byId "job-1").map
          (fun r => (r.state, attemptText (scanJobStatus r))) = some (.dead, "4 / 3") ∧
      ¬ RetriesReal (afterRun thirdFailure) ∧ ¬ RetriesReal (afterRun givenUp) := by
  have hthird : ((afterRun thirdFailure).db.jobs.byId "job-1").map
      (fun r => (r.attempt, r.maxAttempts)) = some (3, 3) := by decide
  have hgivenUp : ((afterRun givenUp).db.jobs.byId "job-1").map
      (fun r => (r.attempt, r.maxAttempts)) = some (3, 3) := by decide
  refine ⟨rfl, by decide, by decide, by decide, ?_, ?_⟩
  · exact not_retriesReal hthird
  · exact not_retriesReal hgivenUp

end TrendingPipeline.System.RetrySchedule
