/- Unit: TrendingPipeline/System/Crash
   source: backend/youtube/client.go, backend/worker/worker.go, backend/etl/server.go
   digest: Which accepted requests can end the process from a worker. -/

import TrendingPipeline.System.ExactlyOnce

set_option autoImplicit false
set_option relaxedAutoImplicit false

namespace TrendingPipeline.System.Crash

open TrendingPipeline.Base.Calendar (Time)
open TrendingPipeline.Base.Runs
open TrendingPipeline.Proto.Messages (BatchResponse JobRequest)
open TrendingPipeline.Etl.Submit (Call enqueued onRecv)
open TrendingPipeline.Worker.ProcessJob (Job)
open TrendingPipeline.Worker.Effects (steps_step)
open TrendingPipeline.Youtube.FetchTrending (fetchTrending fetchTrending_panicked_iff)
open TrendingPipeline.System.Step
open TrendingPipeline.System.ExactlyOnce (sampleRequest)

def crashes (s : State) : Act → Bool
  | .work w inp =>
      match s.workers[w]? with
      | some (.busy job p) => (Worker.Machine.step job inp s.db p).1 = .panicked
      | _ => false
  | _ => false

/-- Every request that is submitted satisfies `P`. -/
def Submits (P : JobRequest → Prop) (_ : State) : Act → Prop
  | .submitJob req => P req
  | .call _ (.recv (.request req)) => P req
  | _ => True

def carries (c : Call) : Option JobRequest :=
  match c.point with
  | .lookup req => some req
  | .insert req => some req
  | .send job => some job.req
  | .recv => none
  | .returned _ => none

def Makeable (req : JobRequest) : Prop := 0 ≤ req.maxResults.toInt

structure AllMakeable (s : State) : Prop where
  calls : ∀ c ∈ s.calls, ∀ req ∈ carries c, Makeable req
  queue : ∀ job ∈ s.queue, Makeable job.req
  workers : ∀ w ∈ s.workers, ∀ job ∈ w.holding, Makeable job.req

section

variable {c : Call} {req : JobRequest} {jobId : String} {job : Job} {now : Time}

private theorem carries_failed : carries (c.failed req) = none := by
  unfold Call.failed carries
  cases c.handler <;> rfl

private theorem carries_existing : carries (c.existing req jobId now) = none := by
  unfold Call.existing carries
  cases c.handler <;> rfl

private theorem carries_created : carries (c.created req jobId) = some
    (enqueued jobId req).req := by
  unfold Call.created carries
  cases c.handler <;> rfl

private theorem carries_sent : carries (c.sent job now) = none := by
  unfold Call.sent carries
  cases c.handler <;> rfl

end

variable {s t : State} {a : Act}

theorem AllMakeable.halt (s : State) : AllMakeable s.halt where
  calls _ h := absurd h List.not_mem_nil
  queue _ h := absurd h List.not_mem_nil
  workers _ h := absurd h List.not_mem_nil

private theorem AllMakeable.setCall (h : AllMakeable s) {i : Nat} {d : Call}
    (hd : ∀ req ∈ carries d, Makeable req) :
    ∀ c ∈ s.calls.set i d, ∀ req ∈ carries c, Makeable req := by
  intro c hc
  rcases List.mem_or_eq_of_mem_set hc with hc | rfl
  · exact h.calls c hc
  · exact hd

private theorem AllMakeable.setWorker (h : AllMakeable s) {w : Nat} {x : WorkerState}
    (hx : ∀ job ∈ x.holding, Makeable job.req) :
    ∀ y ∈ s.workers.set w x, ∀ job ∈ y.holding, Makeable job.req := by
  intro y hy
  rcases List.mem_or_eq_of_mem_set hy with hy | rfl
  · exact h.workers y hy
  · exact hx

private theorem makeable_call (h : AllMakeable s) {i : Nat} {ev : Etl.Submit.Event} {c : Call}
    {e : Etl.Submit.Effect} (hok : Submits Makeable s (.call i ev)) (hc : s.calls[i]? = some c)
    (hstep : Etl.Submit.step s.db c ev = some e) :
    (∀ req ∈ carries e.call, Makeable req) ∧ ∀ job ∈ e.sent, Makeable job.req := by
  have hmem : c ∈ s.calls := List.mem_of_getElem? hc
  have hnone : ∀ {d : Call}, carries d = none → ∀ req ∈ carries d, Makeable req := by
    intro d hd req hreq
    rw [hd] at hreq
    cases hreq
  have hnothing : ∀ job ∈ (none : Option Job), Makeable job.req := fun job hjob => by cases hjob
  cases Etl.Submit.steps_of_step hstep with
  | received b received _ _ =>
      refine ⟨?_, hnothing⟩
      intro req hreq
      cases received with
      | request req' =>
          obtain rfl := Option.some.inj hreq
          exact hok
      | eof => cases hreq
      | error => cases hreq
  | unanswered => exact ⟨hnone carries_failed, hnothing⟩
  | found => exact ⟨hnone carries_existing, hnothing⟩
  | missed req now hpoint _ =>
      refine ⟨?_, hnothing⟩
      intro req' hreq
      obtain rfl := Option.some.inj hreq
      exact h.calls c hmem req (by rw [carries, hpoint]; rfl)
  | created req jobId now db hpoint _ =>
      refine ⟨?_, hnothing⟩
      intro req' hreq
      rw [carries_created] at hreq
      obtain rfl := Option.some.inj hreq
      exact h.calls c hmem req (by rw [carries, hpoint]; rfl)
  | rejected => exact ⟨hnone carries_failed, hnothing⟩
  | orphaned => exact ⟨hnone carries_failed, hnothing⟩
  | sent job now hpoint =>
      refine ⟨hnone carries_sent, ?_⟩
      intro job' hjob
      obtain rfl := Option.some.inj hjob
      exact h.calls c hmem job.req (by rw [carries, hpoint]; rfl)

theorem AllMakeable.step (h : AllMakeable s) (hok : Submits Makeable s a)
    (hstep : step s a = some t) : AllMakeable t := by
  have hadd : ∀ d, (∀ req ∈ carries d, Makeable req) →
      ∀ c ∈ s.calls ++ [d], ∀ req ∈ carries c, Makeable req := by
    intro d hd c hc
    rcases List.mem_append.mp hc with hc | hc
    · exact h.calls c hc
    · obtain rfl := List.mem_singleton.mp hc
      exact hd
  cases acts_of_step hstep with
  | submitJob req _ =>
      refine ⟨hadd _ ?_, h.queue, h.workers⟩
      intro req' hreq
      obtain rfl := Option.some.inj hreq
      exact hok
  | submitBatch _ => exact ⟨hadd _ (fun _ hreq => by cases hreq), h.queue, h.workers⟩
  | call i ev c e hc hcall _ =>
      exact ⟨h.setCall (makeable_call h hok hc hcall).1, h.queue, h.workers⟩
  | send i ev c e job hc hcall hsent _ =>
      obtain ⟨hcarried, hjob⟩ := makeable_call h hok hc hcall
      refine ⟨h.setCall hcarried, ?_, h.workers⟩
      intro job' hmem
      rcases List.mem_append.mp hmem with hmem | hmem
      · exact h.queue job' hmem
      · obtain rfl := List.mem_singleton.mp hmem
        exact hjob job' hsent
  | receive w job rest hw hqueue =>
      refine ⟨h.calls, fun x hx => h.queue x (hqueue ▸ List.mem_cons_of_mem _ hx),
        h.setWorker ?_⟩
      intro job' hjob
      obtain rfl := Option.some.inj hjob
      exact h.queue job (hqueue ▸ List.mem_cons_self)
  | work w inp job p hw =>
      have hjob : Makeable job.req := h.workers _ (List.mem_of_getElem? hw) job rfl
      unfold State.afterWork
      dsimp only
      split
      · refine ⟨h.calls, h.queue, h.setWorker ?_⟩
        intro job' hjob'
        obtain rfl := Option.some.inj hjob'
        exact hjob
      · exact ⟨h.calls, h.queue, h.setWorker (fun _ hidle => by cases hidle)⟩
      · exact AllMakeable.halt _
  | shutdown _ => exact ⟨h.calls, h.queue, h.workers⟩
  | exit _ _ => exact AllMakeable.halt s
  | boot n _ =>
      have hhalt := AllMakeable.halt s
      refine ⟨hhalt.calls, hhalt.queue, ?_⟩
      intro x hx job hjob
      rw [List.eq_of_mem_replicate hx] at hjob
      cases hjob

private theorem crashes_iff {w : Nat} {inp : Worker.Machine.Input} :
    crashes s (.work w inp) = true ↔ ∃ job attempt,
      s.workers[w]? = some (.busy job (.fetch attempt)) ∧ ¬ Makeable job.req := by
  constructor
  · intro h
    simp only [crashes] at h
    split at h
    · rename_i job p hw
      have hsteps := steps_step job inp s.db p
      rw [of_decide_eq_true h] at hsteps
      obtain ⟨attempt, rfl, hneg⟩ := hsteps.of_panicked
      exact ⟨job, attempt, hw, not_le.mpr hneg⟩
    · cases h
  · rintro ⟨job, attempt, hw, hneg⟩
    have hpanic : fetchTrending inp.client inp.get inp.clock job.req job.id = .panicked ↔ _ :=
      fetchTrending_panicked_iff
    rw [Makeable] at hneg
    simp only [crashes, hw, Worker.Machine.step, hpanic.mpr (by omega), decide_true]

/-- One request, from the start of the process to the fetch of its job. -/
def upToFetch (req : JobRequest) : List Act :=
  [.boot numWorkers, .submitJob req, .call 0 (.lookup .none Time.zero),
    .call 0 (.insert .none "job-1" Time.zero), .call 0 (.send Time.zero), .receive 0, .work 0 {}]

def atFetch (req : JobRequest) : State :=
  (run step (State.cold .empty) (upToFetch req)).getD (State.cold .empty)

private theorem run_upToFetch (req : JobRequest) :
    run step (State.cold .empty) (upToFetch req) = some (atFetch req) := by
  rfl

private theorem atFetch_reachable {P : JobRequest → Prop} {req : JobRequest} (hreq : P req) :
    Reachable Cold step (Submits P) (atFetch req) :=
  .of_run ⟨.empty, rfl⟩ (run_upToFetch req) ⟨trivial, hreq, trivial, trivial, trivial, trivial,
    trivial, trivial⟩

/-- When only requests with `P` come in, no worker ever panics, whatever the API and
the database do, exactly when `P` rules out a negative `max_results`. -/
theorem neverCrashes_iff (P : JobRequest → Prop) :
    (∀ s a, Reachable Cold step (Submits P) s → Submits P s a → crashes s a = false) ↔
      ∀ req, P req → 0 ≤ req.maxResults.toInt := by
  constructor
  · intro h req hreq
    by_contra hneg
    have hcrash : crashes (atFetch req) (.work 0 {}) = true :=
      crashes_iff.mpr ⟨enqueued "job-1" req, 1, rfl, hneg⟩
    rw [h _ (.work 0 {}) (atFetch_reachable hreq) trivial] at hcrash
    cases hcrash
  · intro hP s a hreach _
    have hmono : Reachable Cold step (Submits Makeable) s := by
      refine hreach.mono ?_
      intro s a hok
      unfold Submits at hok ⊢
      split at hok
      · exact hP _ hok
      · exact hP _ hok
      · trivial
    have hall : AllMakeable s := by
      refine hmono.invariant ?_ fun s a t hI hok hstep => hI.step hok hstep
      rintro _ ⟨db, rfl⟩
      exact AllMakeable.halt (State.cold db)
    cases a with
    | work w inp =>
        rw [Bool.eq_false_iff]
        intro hcrash
        obtain ⟨job, attempt, hw, hneg⟩ := crashes_iff.mp hcrash
        exact hneg (hall.workers _ (List.mem_of_getElem? hw) job rfl)
    | _ => rfl

def negativeRequest : JobRequest := { sampleRequest with maxResults := -1 }

/-- The request is accepted and answered as queued; its fetch takes the process down. -/
theorem negativeRequest_crashes :
    Reachable Migrated step Healthy (atFetch negativeRequest) ∧
      (atFetch negativeRequest).calls.map (·.answers) =
        [[(negativeRequest, .created "job-1")]] ∧
      crashes (atFetch negativeRequest) (.work 0 {}) = true ∧
      (step (atFetch negativeRequest) (.work 0 {})).map (·.phase) = some .down :=
  ⟨.of_run rfl (run_upToFetch negativeRequest) (by decide), by decide, by decide, by decide⟩

end TrendingPipeline.System.Crash
