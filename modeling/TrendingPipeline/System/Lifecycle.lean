/- Unit: TrendingPipeline/System/Lifecycle
   source: backend/worker/worker.go, backend/db/db.go
   digest: A row's state and attempt only move along the lifecycle, and stop at its end. -/

import TrendingPipeline.System.ExactlyOnce
import TrendingPipeline.System.Rows

set_option autoImplicit false
set_option relaxedAutoImplicit false

namespace TrendingPipeline.System.Lifecycle

open Relation (ReflTransGen)
open TrendingPipeline.Base.Calendar (Time)
open TrendingPipeline.Base.Holdings
open TrendingPipeline.Base.Runs
open TrendingPipeline.Proto.Messages (JobRequest)
open TrendingPipeline.Store.Tables (Db JobProgress JobRow)
open TrendingPipeline.Store.Statements
  (Fault byId_insertJob insertJob insertVideo_jobs newRow)
open TrendingPipeline.Worker.ProcessJob (Job maxAttempts toInt_ofNat_of_le)
open TrendingPipeline.Worker.Machine (Input Point)
open TrendingPipeline.Worker.Effects (Steps steps_step)
open TrendingPipeline.System.Step
open TrendingPipeline.System.Custody
open TrendingPipeline.System.ExactlyOnce (submission)
open TrendingPipeline.System.Rows

/-- The statement before which processJob stands is an UPDATE of the job's row. -/
def updatesRow : Point → Bool
  | .start | .retry _ | .ingest _ [] _ _ | .dead _ => true
  | .fetch _ | .sleep _ | .ingest _ (_ :: _) _ _ => false

def updates (s : State) : Act → Option String
  | .work w _ =>
      match s.workers[w]? with
      | some (.busy job p) => if updatesRow p then some job.id else none
      | _ => none
  | _ => none

variable {s t : State} {a : Act}

theorem held_of_updates {id : String} (hupdates : updates s a = some id) :
    ∃ job p, (job, .working p) ∈ (ofState s).held ∧ job.id = id := by
  unfold updates at hupdates
  split at hupdates
  · split at hupdates
    · rename_i w inp job p hw
      split at hupdates
      · refine ⟨job, p, ?_, Option.some.inj hupdates⟩
        refine Multiset.mem_add.mpr (.inr (mem_holdings.mpr ⟨.busy job p, ?_, rfl⟩))
        exact List.mem_of_getElem? hw
      · cases hupdates
    · cases hupdates
  · cases hupdates

private theorem open_of_updates (h : Reachable Cold step Anything s) {id : String}
    (hupdates : updates s a = some id) :
    ∃ r, s.db.jobs.byId id = some r ∧ Open r.toJobProgress := by
  obtain ⟨job, p, hheld, rfl⟩ := held_of_updates hupdates
  obtain ⟨r, hr, hat⟩ := tended_of_reachable h _ hheld
  exact ⟨r, hr, hat.isOpen⟩

private theorem jobs_of_not_updatesRow {job : Job} {inp : Input} {db db' : Db} {p : Point}
    {next : Worker.Machine.Next} (h : Steps job inp db p next db') (hp : updatesRow p = false) :
    db'.jobs = db.jobs := by
  cases h with
  | started => cases hp
  | startFailed => cases hp
  | panicked => rfl
  | fetchFailed => rfl
  | fetched => rfl
  | retried => cases hp
  | retryFailed => cases hp
  | slept => rfl
  | exhausted => rfl
  | inserted _ _ _ _ _ _ _ hinsert => exact insertVideo_jobs hinsert
  | insertFailed _ _ _ _ _ _ hafter => exact hafter.jobs_of_video
  | completed => cases hp
  | completionLost => cases hp
  | died => cases hp
  | deathLost => cases hp

/-- What an action does to the tables: nothing, or an INSERT, or a worker's step. -/
inductive Touches (s : State) (a : Act) (t : State) : Prop
  | nothing : (∀ w inp, a ≠ .work w inp) → t.db = s.db → t.fetched = s.fetched → Touches s a t
  | insert (jobId : String) (req : JobRequest) (now : Time) : (∀ w inp, a ≠ .work w inp) →
      insertJob s.db now jobId req = some t.db → t.fetched = s.fetched → Touches s a t
  | work (w : Nat) (inp : Input) (job : Job) (p : Point) (next : Worker.Machine.Next) :
      a = .work w inp → s.workers[w]? = some (.busy job p) → Steps job inp s.db p next t.db →
      t.fetched = recordFetch s.fetched job p next → Touches s a t

private theorem afterWork_fetched (w : Nat) (job : Job) (p : Point) (inp : Input) :
    (s.afterWork w job p inp).fetched =
      recordFetch s.fetched job p (Worker.Machine.step job inp s.db p).1 := by
  unfold State.afterWork
  dsimp only
  split
  · rename_i hnext
    rw [hnext]
  · rename_i hnext
    rw [hnext]
  · rename_i hnext
    rw [hnext]
    rfl

theorem touches_of_step (hstep : step s a = some t) : Touches s a t := by
  cases acts_of_step hstep with
  | submitJob => exact .nothing nofun rfl rfl
  | submitBatch => exact .nothing nofun rfl rfl
  | call i ev c e hc hcall =>
      cases Etl.Submit.steps_of_step hcall with
      | created req jobId now db _ hinsert => exact .insert jobId req now nofun hinsert rfl
      | orphaned req jobId now db _ hinsert => exact .insert jobId req now nofun hinsert rfl
      | _ => exact .nothing nofun rfl rfl
  | send i ev c e job hc hcall hsent =>
      cases Etl.Submit.steps_of_step hcall with
      | sent => exact .nothing nofun rfl rfl
      | _ => cases hsent
  | receive => exact .nothing nofun rfl rfl
  | work w inp job p hw =>
      refine .work w inp job p _ rfl hw ?_ (afterWork_fetched w job p inp)
      rw [s.afterWork_db]
      exact steps_step job inp s.db p
  | shutdown => exact .nothing nofun rfl rfl
  | exit => exact .nothing nofun rfl rfl
  | boot => exact .nothing nofun rfl rfl

theorem row_of_not_updates (hstep : step s a = some t) {id : String} {r : JobRow}
    (hr : s.db.jobs.byId id = some r) (hno : updates s a ≠ some id) :
    t.db.jobs.byId id = some r := by
  cases touches_of_step hstep with
  | nothing _ hdb _ => rw [hdb, hr]
  | insert jobId req now _ hinsert _ => exact byId_of_insertJob hinsert hr
  | work w inp job p next ha hw hsteps _ =>
      by_cases hid : id = job.id
      · have hp : updatesRow p = false := by
          cases hp : updatesRow p with
          | false => rfl
          | true => exact absurd (by simp only [ha, updates, hw, hp, if_pos, hid]) hno
        rw [jobs_of_not_updatesRow hsteps hp, hr]
      · rw [hsteps.byId_of_ne hid, hr]

def AllRows (P : JobRow → Prop) (s : State) : Prop :=
  ∀ id r, s.db.jobs.byId id = some r → P r

/-- A worker steps from a point, with an outcome of its statement, that `bad` tells. -/
def atPoint (bad : Fault → Point → Bool) (s : State) : Act → Bool
  | .work w inp =>
      match s.workers[w]? with
      | some (.busy _ p) => bad inp.fault p
      | _ => false
  | _ => false

theorem atPoint_of_not_work {bad : Fault → Point → Bool} (h : ∀ w inp, a ≠ .work w inp) :
    atPoint bad s a = false := by
  cases a with
  | work w inp => exact absurd rfl (h w inp)
  | _ => rfl

/-- If new rows have the property, it takes a worker's step to spoil it, on the row of the
worker's job. -/
theorem allRows_step_iff (ok : Fault → Prop) {P : JobRow → Prop} {bad : Fault → Point → Bool}
    (hnew : ∀ now id req, P (newRow now id req))
    (hwork : ∀ job inp db db' p next r r', ok inp.fault → Steps job inp db p next db' →
      db.jobs.byId job.id = some r → db'.jobs.byId job.id = some r' → P r →
      RowAt (.working p) r.toJobProgress → RowAfter inp r r' next →
      (P r' ↔ bad inp.fault p = false))
    (hreach : Reachable Cold step Anything s) (h : AllRows P s) (hok : ok a.fault)
    (hstep : step s a = some t) : AllRows P t ↔ atPoint bad s a = false := by
  cases touches_of_step hstep with
  | nothing hnot hdb _ =>
      refine iff_of_true ?_ (atPoint_of_not_work hnot)
      exact fun id r hr => h id r (hdb ▸ hr)
  | insert jobId req now hnot hinsert _ =>
      refine iff_of_true ?_ (atPoint_of_not_work hnot)
      intro id r hr
      rw [byId_insertJob hinsert] at hr
      split at hr
      · obtain rfl := Option.some.inj hr
        exact hnew now jobId req
      · exact h id r hr
  | work w inp job p next ha hw hsteps _ =>
      have hheld : (job, .working p) ∈ (ofState s).held :=
        Multiset.mem_add.mpr (.inr (mem_holdings.mpr ⟨.busy job p, List.mem_of_getElem? hw, rfl⟩))
      obtain ⟨r, hr, hat⟩ := tended_of_reachable hreach _ hheld
      obtain ⟨r', hr', -, hafter⟩ := row_of_steps hsteps hr hat
      have hbad : atPoint bad s a = bad inp.fault p := by
        rw [ha]
        simp only [atPoint, hw]
      rw [ha] at hok
      rw [hbad, ← hwork job inp s.db t.db p next r r' hok hsteps hr hr' (h job.id r hr) hat hafter]
      refine ⟨fun hall => hall job.id r' hr', ?_⟩
      intro hself id r'' hr''
      by_cases hid : id = job.id
      · subst hid
        obtain rfl := Option.some.inj (hr'.symm.trans hr'')
        exact hself
      · rw [hsteps.byId_of_ne hid] at hr''
        exact h id r'' hr''

private theorem attempt_of_open {p : JobProgress} (h : Open p) :
    0 ≤ p.attempt.toInt ∧ p.attempt.toInt ≤ maxAttempts := by
  rcases h with rfl | ⟨k, hk⟩
  · decide
  · rw [hk.attempt, toInt_ofNat_of_le hk.bound]
    exact ⟨Int.natCast_nonneg k, Int.ofNat_le.mpr hk.bound⟩

private theorem attempt_of_closed {p : JobProgress} (h : Closed p) :
    0 ≤ p.attempt.toInt ∧ p.attempt.toInt ≤ maxAttempts := by
  rcases h with ⟨k, hk⟩ | ⟨k, hk⟩
  · rw [hk.attempt, toInt_ofNat_of_le hk.bound.le]
    exact ⟨Int.natCast_nonneg k, Int.ofNat_le.mpr hk.bound.le⟩
  · rw [hk.attempt, toInt_ofNat_of_le hk.bound]
    exact ⟨Int.natCast_nonneg k, Int.ofNat_le.mpr hk.bound⟩

private theorem attempt_le_of_advances {x y : Store.Tables.RowState × Int} (h : Advances x y) :
    x.2 ≤ y.2 := by
  cases h with
  | started => exact le_rfl
  | refused => exact le_rfl
  | failed _ _ hlt => exact hlt.le
  | finished => exact le_rfl
  | stopped => exact le_rfl
  | failedAgain _ _ hlt => exact hlt.le
  | finishedLate => exact le_rfl
  | exhausted => exact le_rfl

structure Follows (r r' : JobRow) : Prop where
  moves : ReflTransGen Advances (lifecycle r.toJobProgress) (lifecycle r'.toJobProgress)
  attempt : r.attempt.toInt ≤ r'.attempt.toInt
  terminal : r.state.terminal = true → r' = r

theorem Follows.refl (r : JobRow) : Follows r r := ⟨.refl, le_rfl, fun _ => rfl⟩

theorem Follows.next {r r' r'' : JobRow} (h : Follows r r') (hnext : Progresses r' r'') :
    Follows r r'' := by
  rcases hnext with rfl | ⟨hopen, hadv⟩
  · exact h
  · refine ⟨h.moves.tail hadv, h.attempt.trans (attempt_le_of_advances hadv), ?_⟩
    intro hterm
    have hsame := h.terminal hterm
    rw [hsame] at hopen
    rw [hopen.not_terminal] at hterm
    cases hterm

theorem follows_of_path (h : Reachable Cold step Anything s)
    (hpath : ReflTransGen (Next step Anything) s t) {id : String} {r : JobRow}
    (hr : s.db.jobs.byId id = some r) :
    ∃ r', t.db.jobs.byId id = some r' ∧ Follows r r' := by
  refine h.stays (P := fun u => ∃ r', u.db.jobs.byId id = some r' ∧ Follows r r') ?_
    ⟨r, hr, .refl r⟩ hpath
  rintro u a v hu ⟨r', hr', hfollows⟩ _ hstep
  obtain ⟨r'', hr'', hprogress⟩ :=
    progresses_of_moves (tended_of_reachable hu) (moves_any hstep) hr'
  exact ⟨r'', hr'', hfollows.next hprogress⟩

/-- In every run, whatever fails: a row appears as (queued, 0), each step leaves it
or moves it along the lifecycle, no UPDATE meets a finished row, and the attempt
grows to 3 at most. -/
theorem lifecycle_monotone (h : Reachable Migrated step Anything s) :
    (∀ id r, s.db.jobs.byId id = some r → 0 ≤ r.attempt.toInt ∧ r.attempt.toInt ≤ maxAttempts) ∧
      (∀ a id, updates s a = some id →
        ∃ r, s.db.jobs.byId id = some r ∧ r.state.terminal = false) ∧
      (∀ a t, step s a = some t → ∀ id r', t.db.jobs.byId id = some r' →
        match s.db.jobs.byId id with
        | none => lifecycle r'.toJobProgress = (.queued, 0)
        | some r => r' = r ∨ updates s a = some id ∧ r.state.terminal = false ∧
            Advances (lifecycle r.toJobProgress) (lifecycle r'.toJobProgress)) ∧
      ∀ t, ReflTransGen (Next step Anything) s t → ∀ id r, s.db.jobs.byId id = some r →
        ∃ r', t.db.jobs.byId id = some r' ∧ Follows r r' := by
  have hcold := cold_of_migrated h
  refine ⟨?_, ?_, ?_, ?_⟩
  · intro id r hr
    exact (regular_of_reachable h id r hr).elim attempt_of_open attempt_of_closed
  · intro a id hupdates
    obtain ⟨r, hr, hopen⟩ := open_of_updates hcold hupdates
    exact ⟨r, hr, hopen.not_terminal⟩
  · intro a t hstep id r' hr'
    have hmove := moves_any hstep
    cases hr : s.db.jobs.byId id with
    | none =>
        have hwait : r'.toJobProgress = {} := waiting_of_new hmove hr hr'
        simp only [hwait]
        rfl
    | some r =>
        obtain ⟨r₁, hr₁, hprogress⟩ := progresses_of_moves (tended_of_reachable hcold) hmove hr
        obtain rfl := Option.some.inj (hr'.symm.trans hr₁)
        by_cases hupdates : updates s a = some id
        · exact hprogress.imp_right fun ⟨hopen, hadv⟩ => ⟨hupdates, hopen.not_terminal, hadv⟩
        · exact .inl (Option.some.inj (hr'.symm.trans (row_of_not_updates hstep hr hupdates)))
  · exact fun t hpath id r hr => follows_of_path hcold hpath hr

def emptyListing : Input := { get := fun _ => .response 200 "\x7b\"items\": []\x7d" }

def firstFailure : List Act :=
  submission ++ [.call 0 (.send Time.zero), .receive 0, .work 0 {}, .work 0 {}, .work 0 {}]

def lateSuccess : List Act := firstFailure ++ [.work 0 {}, .work 0 emptyListing, .work 0 {}]

def afterRun (acts : List Act) : State :=
  (run step (State.cold .empty) acts).getD (State.cold .empty)

theorem run_firstFailure :
    run step (State.cold .empty) firstFailure = some (afterRun firstFailure) := by
  rfl

theorem run_lateSuccess :
    run step (State.cold .empty) lateSuccess = some (afterRun lateSuccess) := by
  rfl

/-- From a failed attempt on, the row of the job goes to its end with the attempt kept. -/
theorem lifecycle_lateSuccess :
    ∃ r r', (afterRun firstFailure).db.jobs.byId "job-1" = some r ∧
      (afterRun lateSuccess).db.jobs.byId "job-1" = some r' ∧
      lifecycle r.toJobProgress = (.retrying, 1) ∧ lifecycle r'.toJobProgress = (.done, 1) ∧
      Follows r r' := by
  have hreach : Reachable Migrated step Anything (afterRun firstFailure) :=
    .of_run rfl run_firstFailure (meets_true _ _)
  have hpath : ReflTransGen (Next step Anything) (afterRun firstFailure) (afterRun lateSuccess) :=
    path_of_run ((run_append run_firstFailure).symm.trans run_lateSuccess) (meets_true _ _)
  have hbefore : ((afterRun firstFailure).db.jobs.byId "job-1").map
      (fun r => lifecycle r.toJobProgress) = some (.retrying, 1) := by decide
  have hafter : ((afterRun lateSuccess).db.jobs.byId "job-1").map
      (fun r => lifecycle r.toJobProgress) = some (.done, 1) := by decide
  obtain ⟨r, hr, hretrying⟩ := Option.map_eq_some_iff.mp hbefore
  obtain ⟨r', hr', hfollows⟩ := (lifecycle_monotone hreach).2.2.2 _ hpath "job-1" r hr
  rw [hr', Option.map_some] at hafter
  exact ⟨r, r', hr, hr', hretrying, Option.some.inj hafter, hfollows⟩

end TrendingPipeline.System.Lifecycle
