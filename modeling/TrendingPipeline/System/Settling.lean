/- Unit: TrendingPipeline/System/Settling
   source: backend/cmd/server/main.go, backend/etl/server.go, backend/worker/worker.go
   digest: Without new requests the process comes to rest, with nothing left unfinished. -/

import Mathlib.Data.Prod.Lex
import TrendingPipeline.Base.Settling
import TrendingPipeline.System.Crash
import TrendingPipeline.System.Restart

/-!
A task is a request in a call, a job in the channel or one with a worker, ranked by the
steps ahead of it and then by the videos ahead. Each step the process takes by itself puts
smaller tasks in the place of one, so these steps end; what is left to see is that a call,
the channel or a worker with work can always take one.
-/

set_option autoImplicit false
set_option relaxedAutoImplicit false

namespace TrendingPipeline.System.Settling

open Relation (ReflTransGen)
open Multiset (IsDershowitzMannaLT)
open TrendingPipeline.Base.Calendar (Time)
open TrendingPipeline.Base.Holdings
open TrendingPipeline.Base.Runs (Next Reachable)
open TrendingPipeline.Base.Settling
open TrendingPipeline.Etl.Submit (Call)
open TrendingPipeline.Worker.ProcessJob (Job maxAttempts)
open TrendingPipeline.Worker.Machine (Point)
open TrendingPipeline.Worker.Effects (Steps steps_step)
open TrendingPipeline.System.Crash (AllMakeable)
open TrendingPipeline.System.Restart (holders holders_eq)
open TrendingPipeline.System.Step

/-- A step that the process takes by itself: no call and no request of a batch comes in,
and no process starts or stops. -/
def Internal (_ : State) : Act → Prop
  | .call _ (.recv _) => False
  | .call _ (.lookup _ _) | .call _ (.insert _ _ _) | .call _ (.send _) => True
  | .receive _ | .work _ _ => True
  | .submitJob _ | .submitBatch | .shutdown | .exit | .boot _ => False

/-- How much is left, first by the steps ahead and then by the videos ahead. -/
abbrev Rank := ℕ ×ₗ ℕ

def pointRank : Point → Rank
  | .dead _ => toLex (0, 0)
  | .ingest _ todo _ _ => toLex (1, todo.length)
  | .sleep attempt => toLex (3 * (maxAttempts - attempt) + 2, 0)
  | .retry attempt => toLex (3 * (maxAttempts - attempt) + 3, 0)
  | .fetch attempt => toLex (3 * (maxAttempts - attempt) + 4, 0)
  | .start => toLex (13, 0)

def queueRank (_ : Job) : Option Rank := some (toLex (14, 0))

def callRank (c : Call) : Option Rank :=
  match c.point with
  | .send _ => some (toLex (15, 0))
  | .insert _ => some (toLex (16, 0))
  | .lookup _ => some (toLex (17, 0))
  | .recv | .returned _ => none

def workerRank : WorkerState → Option Rank
  | .idle => none
  | .busy _ p => some (pointRank p)

def tasks (s : State) : Multiset Rank :=
  holdings callRank s.calls + holdings queueRank s.queue + holdings workerRank s.workers

private theorem lex_lt {a b c d : ℕ} (h : a < c) : (toLex (a, b) : Rank) < toLex (c, d) :=
  Prod.Lex.toLex_lt_toLex.mpr (.inl h)

private theorem pointRank_lt {job : Job} {inp : Worker.Machine.Input} {db db' : Store.Tables.Db}
    {p q : Point} (h : Steps job inp db p (.goto q) db') : pointRank q < pointRank p := by
  cases h with
  | started => exact lex_lt (by decide)
  | startFailed => exact lex_lt (by decide)
  | fetchFailed attempt => exact lex_lt (by omega)
  | fetched attempt videos => exact lex_lt (by omega)
  | retried attempt => exact lex_lt (by omega)
  | retryFailed attempt => exact lex_lt (by omega)
  | slept attempt hlt => exact lex_lt (by omega)
  | exhausted attempt => exact lex_lt (by omega)
  | inserted attempt v vs =>
      refine Prod.Lex.toLex_lt_toLex.mpr (.inr ⟨rfl, ?_⟩)
      exact Nat.lt_succ_self vs.length
  | insertFailed => exact lex_lt (by decide)

section Descent

variable {s t : State} {a : Act}

def Waits (c : Call) : Prop := callRank c = none

private theorem waits_failed (c : Call) (req : Proto.Messages.JobRequest) : Waits
    (c.failed req) := by
  unfold Waits Call.failed callRank
  cases c.handler <;> rfl

private theorem waits_existing (c : Call) (req : Proto.Messages.JobRequest) (jobId : String)
    (now : Time) : Waits (c.existing req jobId now) := by
  unfold Waits Call.existing callRank
  cases c.handler <;> rfl

private theorem waits_sent (c : Call) (job : Job) (now : Time) : Waits (c.sent job now) := by
  unfold Waits Call.sent callRank
  cases c.handler <;> rfl

private theorem callRank_created (c : Call) (req : Proto.Messages.JobRequest) (jobId : String) :
    callRank (c.created req jobId) = some (toLex (15, 0)) := by
  unfold Call.created callRank
  cases c.handler <;> rfl

inductive Shrinks (c d : Call) : Prop
  | done (r : Rank) : callRank c = some r → callRank d = none → Shrinks c d
  | smaller (r r' : Rank) : callRank c = some r → callRank d = some r' → r' < r → Shrinks c d

private theorem shrinks_of_step {db : Store.Tables.Db} {c : Call} {ev : Etl.Submit.Event}
    {e : Etl.Submit.Effect} (hev : ∀ received, ev ≠ .recv received)
    (h : Etl.Submit.step db c ev = some e) : Shrinks c e.call := by
  have hrank : ∀ p, c.point = p → callRank c = callRank { c with point := p } := by
    rintro p rfl
    rfl
  cases Etl.Submit.steps_of_step h with
  | received b received => exact absurd rfl (hev received)
  | unanswered req fault now hpoint => exact .done _ (hrank _ hpoint) (waits_failed c req)
  | found req row now hpoint =>
      exact .done _ (hrank _ hpoint) (waits_existing c req row.jobId now)
  | missed req now hpoint => exact .smaller _ _ (hrank _ hpoint) rfl (lex_lt (by decide))
  | created req jobId now db' hpoint =>
      exact .smaller _ _ (hrank _ hpoint) (callRank_created c req jobId) (lex_lt (by decide))
  | rejected req fault jobId now hpoint => exact .done _ (hrank _ hpoint) (waits_failed c req)
  | orphaned req jobId now db' hpoint => exact .done _ (hrank _ hpoint) (waits_failed c req)
  | sent job now hpoint => exact .done _ (hrank _ hpoint) (waits_sent c job now)

private theorem tasks_call {i : ℕ} {c d : Call} (hc : s.calls[i]? = some c) (h : Shrinks c d)
    {t : State} (hcalls : t.calls = s.calls.set i d) (hqueue : t.queue = s.queue)
    (hworkers : t.workers = s.workers) : IsDershowitzMannaLT (tasks t) (tasks s) := by
  unfold tasks
  rw [hcalls, hqueue, hworkers]
  cases h with
  | done r hbefore hafter =>
      rw [holdings_set_drop hc hbefore hafter, Multiset.cons_add, Multiset.cons_add]
      exact lt_of_done r _
  | smaller r r' hbefore hafter hlt =>
      obtain ⟨rest, hold, hnew⟩ := holdings_set_swap hc hbefore hafter
      rw [hold, hnew, Multiset.cons_add, Multiset.cons_add, Multiset.cons_add, Multiset.cons_add]
      exact lt_of_smaller hlt _

private theorem tasks_send {i : ℕ} {ev : Etl.Submit.Event} {c : Call} {e : Etl.Submit.Effect}
    {job : Job}
    (hc : s.calls[i]? = some c) (hstep : Etl.Submit.step s.db c ev = some e)
    (hsent : e.sent = some job) {t : State} (hcalls : t.calls = s.calls.set i e.call)
    (hqueue : t.queue = s.queue ++ [job]) (hworkers : t.workers = s.workers) :
    IsDershowitzMannaLT (tasks t) (tasks s) := by
  cases Etl.Submit.steps_of_step hstep with
  | sent job' now hpoint =>
      obtain rfl : job' = job := Option.some.inj hsent
      have hbefore : callRank c = some (toLex (15, 0)) := by rw [callRank, hpoint]
      have hone : holdings queueRank [job'] = {toLex (14, 0)} := rfl
      unfold tasks
      rw [hcalls, hqueue, hworkers, holdings_set_drop hc hbefore (waits_sent c job' now),
        holdings_append, hone, ← add_assoc, add_right_comm, Multiset.add_comm _ {toLex (14, 0)},
        Multiset.singleton_add, Multiset.cons_add, Multiset.cons_add]
      exact lt_of_smaller (lex_lt (by decide)) _
  | received => cases hsent
  | unanswered => cases hsent
  | found => cases hsent
  | missed => cases hsent
  | created => cases hsent
  | rejected => cases hsent
  | orphaned => cases hsent

private theorem tasks_receive {w : ℕ} {job : Job} {rest : List Job}
    (hw : s.workers[w]? = some .idle)
    (hqueue : s.queue = job :: rest) :
    IsDershowitzMannaLT
      (tasks { s with queue := rest, workers := s.workers.set w (.busy job .start) })
      (tasks s) := by
  have htake : holdings workerRank (s.workers.set w (.busy job .start)) =
      toLex (13, 0) ::ₘ holdings workerRank s.workers := holdings_set_take hw rfl rfl
  have hhead : holdings queueRank (job :: rest) = toLex (14, 0) ::ₘ holdings queueRank rest := rfl
  unfold tasks
  rw [htake, hqueue, hhead, Multiset.add_cons, Multiset.add_cons, Multiset.cons_add]
  exact lt_of_smaller (lex_lt (by decide)) _

private theorem tasks_work {w : ℕ} {job : Job} {p : Point} (inp : Worker.Machine.Input)
    (hw : s.workers[w]? = some (.busy job p)) :
    IsDershowitzMannaLT (tasks (s.afterWork w job p inp)) (tasks s) := by
  have hsteps := steps_step job inp s.db p
  simp only [State.afterWork]
  generalize Worker.Machine.step job inp s.db p = r at hsteps
  obtain ⟨next, db⟩ := r
  cases next with
  | goto q =>
      obtain ⟨rest, hold, hnew⟩ := holdings_set_swap (f := workerRank) hw (y := .busy job q) rfl rfl
      unfold tasks
      dsimp only
      rw [hold, hnew, Multiset.add_cons, Multiset.add_cons]
      exact lt_of_smaller (pointRank_lt hsteps) _
  | returned =>
      unfold tasks
      dsimp only
      rw [holdings_set_drop (f := workerRank) hw (y := .idle) rfl rfl, Multiset.add_cons]
      exact lt_of_done (pointRank p) _
  | panicked =>
      -- the process ends with everything it had to do
      refine lt_of_dropped ?_
      intro hzero
      have hmem : pointRank p ∈ holdings workerRank s.workers :=
        mem_holdings.mpr ⟨_, List.mem_of_getElem? hw, rfl⟩
      have htask : pointRank p ∈ tasks s := Multiset.mem_add.mpr (.inr hmem)
      rw [hzero] at htask
      exact Multiset.notMem_zero _ htask

private theorem tasks_lt (hint : Internal s a) (h : step s a = some t) :
    IsDershowitzMannaLT (tasks t) (tasks s) := by
  cases acts_of_step h with
  | submitJob => exact absurd hint id
  | submitBatch => exact absurd hint id
  | call i ev c e hc hcall hnot =>
      have hev : ∀ received, ev ≠ .recv received := by
        rintro received rfl
        exact hint
      exact tasks_call hc (shrinks_of_step hev hcall) rfl rfl rfl
  | send i ev c e job hc hcall hsent _ => exact tasks_send hc hcall hsent rfl rfl rfl
  | receive w job rest hw hqueue => exact tasks_receive hw hqueue
  | work w inp job p hw => exact tasks_work inp hw
  | shutdown => exact absurd hint id
  | exit => exact absurd hint id
  | boot => exact absurd hint id

end Descent

def Own (s : State) (a : Act) : Prop := Internal s a ∧ Healthy s a

/-- Every call has returned or waits for its client, and no job is on its way. -/
structure Settled (s : State) : Prop where
  calls : ∀ c ∈ s.calls, c.hasReturned = true ∨ c.point = .recv
  queue : s.queue = []
  workers : ∀ x ∈ s.workers, x = .idle

section Rest

variable {s t : State} {a : Act}

/-- A call that can go on does, as long as the channel has room for what it sends. -/
private theorem step_call_ne_none {i : ℕ} {c : Call} {ev : Etl.Submit.Event} {e : Etl.Submit.Effect}
    (hc : s.calls[i]? = some c) (hstep : Etl.Submit.step s.db c ev = some e)
    (hroom : s.queue.length < queueCapacity) : step s (.call i ev) ≠ none := by
  simp only [step, hc, hstep, Option.bind_some]
  unfold State.afterCall
  split
  · exact Option.some_ne_none _
  · rw [if_pos hroom]
    exact Option.some_ne_none _

private theorem idle_of_stuck (h : Stuck step Own s) : ∀ x ∈ s.workers, x = .idle := by
  intro x hx
  obtain ⟨w, hw⟩ := List.mem_iff_getElem?.mp hx
  cases x with
  | idle => rfl
  | busy job p =>
      have hnone := h (.work w {}) ⟨trivial, rfl, trivial⟩
      simp only [step, hw] at hnone
      cases hnone

private theorem queue_of_stuck (hworkers : s.workers ≠ []) (h : Stuck step Own s) : s.queue =
    [] := by
  obtain ⟨x, hx⟩ := List.exists_mem_of_ne_nil s.workers hworkers
  obtain ⟨w, hw⟩ := List.mem_iff_getElem?.mp hx
  obtain rfl := idle_of_stuck h x hx
  cases hqueue : s.queue with
  | nil => rfl
  | cons job rest =>
      have hnone := h (.receive w) ⟨trivial, rfl, trivial⟩
      simp only [step, hw, hqueue] at hnone
      cases hnone

private theorem settled_of_stuck (hworkers : s.workers ≠ []) (h : Stuck step Own s) :
    Settled s where
  workers := idle_of_stuck h
  queue := queue_of_stuck hworkers h
  calls := by
    intro c hmem
    obtain ⟨i, hc⟩ := List.mem_iff_getElem?.mp hmem
    have hroom : s.queue.length < queueCapacity := by
      rw [queue_of_stuck hworkers h]
      decide
    cases hpoint : c.point with
    | recv => exact .inr rfl
    | returned reply =>
        left
        rw [Call.hasReturned, hpoint]
    | lookup req =>
        have hstep : Etl.Submit.step s.db c (.lookup .none Time.zero) =
            some { call := Etl.Submit.onLookup c s.db req .none Time.zero, db := s.db } := by
          simp only [Etl.Submit.step, hpoint]
        exact absurd (h (.call i (.lookup .none Time.zero)) ⟨trivial, rfl, trivial⟩)
          (step_call_ne_none hc hstep hroom)
    | insert req =>
        obtain ⟨id, hid⟩ := s.db.jobs.exists_freshId
        have hstep : Etl.Submit.step s.db c (.insert .none id Time.zero) =
            some (Etl.Submit.onInsert c s.db req .none id Time.zero) := by
          simp only [Etl.Submit.step, hpoint]
        exact absurd (h (.call i (.insert .none id Time.zero)) ⟨trivial, rfl, hid⟩)
          (step_call_ne_none hc hstep hroom)
    | send job =>
        have hstep : Etl.Submit.step s.db c (.send Time.zero) =
            some { call := c.sent job Time.zero, db := s.db, sent := some job } := by
          simp only [Etl.Submit.step, hpoint]
        exact absurd (h (.call i (.send Time.zero)) ⟨trivial, rfl, trivial⟩)
          (step_call_ne_none hc hstep hroom)

private theorem holders_of_settled (h : Settled s) (id : String) : holders s id = 0 := by
  have hhands : ExactlyOnce.inHands s id = 0 := by
    refine List.countP_eq_zero.mpr fun c hc => ?_
    have hnone : c.holding = none := by
      unfold Call.holding
      rcases h.calls c hc with hreturned | hpoint
      · unfold Call.hasReturned at hreturned
        cases hp : c.point <;> simp_all
      · rw [hpoint]
    rw [hnone]
    nofun
  have hqueue : ExactlyOnce.inQueue s id = 0 := by
    rw [ExactlyOnce.inQueue, h.queue, List.countP_nil]
  have hworkers : ExactlyOnce.atWorkers s id = 0 := by
    refine List.countP_eq_zero.mpr fun x hx => ?_
    rw [h.workers x hx]
    nofun
  rw [holders, hhands, hqueue, hworkers]

/-- The same process, with as many workers. -/
structure Kept (s t : State) : Prop where
  phase : t.phase = s.phase
  known : t.known = s.known
  workers : t.workers.length = s.workers.length

/-- An internal step ends the process only where a request with a negative
`max_results` was let in. -/
private theorem kept_or_crashed (hint : Internal s a) (h : step s a = some t) :
    Kept s t ∨ t.phase = .down ∧ ¬ AllMakeable s := by
  cases acts_of_step h with
  | submitJob => exact absurd hint id
  | submitBatch => exact absurd hint id
  | shutdown => exact absurd hint id
  | exit => exact absurd hint id
  | boot => exact absurd hint id
  | call => exact .inl ⟨rfl, rfl, rfl⟩
  | send => exact .inl ⟨rfl, rfl, rfl⟩
  | receive w job rest => exact .inl ⟨rfl, rfl, List.length_set⟩
  | work w inp job p hw =>
      have hsteps := steps_step job inp s.db p
      simp only [State.afterWork]
      generalize Worker.Machine.step job inp s.db p = r at hsteps
      obtain ⟨next, db⟩ := r
      cases next with
      | goto q => exact .inl ⟨rfl, rfl, List.length_set⟩
      | returned => exact .inl ⟨rfl, rfl, List.length_set⟩
      | panicked =>
          obtain ⟨attempt, -, hneg⟩ := hsteps.of_panicked
          refine .inr ⟨rfl, fun hall => ?_⟩
          have hjob := hall.workers _ (List.mem_of_getElem? hw) job rfl
          exact absurd hneg (not_lt.mpr hjob)

private theorem allMakeable_of_internal (h : AllMakeable s) (hint : Internal s a)
    (hstep : step s a = some t) : AllMakeable t := by
  refine h.step ?_ hstep
  cases a with
  | call i ev =>
      cases ev with
      | recv received => exact absurd hint id
      | lookup => trivial
      | insert => trivial
      | send => trivial
  | submitJob => exact absurd hint id
  | submitBatch => trivial
  | receive => trivial
  | work => trivial
  | shutdown => trivial
  | exit => trivial
  | boot => trivial

private theorem kept_of_path (hpath : ReflTransGen (Next step Own) s t) :
    (AllMakeable s → AllMakeable t) ∧ (Kept s t ∨ t.phase = .down ∧ ¬ AllMakeable s) := by
  induction hpath with
  | refl => exact ⟨id, .inl ⟨rfl, rfl, rfl⟩⟩
  | tail _ hnext ih =>
      obtain ⟨a, ⟨hint, -⟩, hstep⟩ := hnext
      obtain ⟨hall, hkept⟩ := ih
      refine ⟨fun hs => allMakeable_of_internal (hall hs) hint hstep, ?_⟩
      rcases kept_or_crashed hint hstep with hnow | ⟨hdown, hnot⟩
      · rcases hkept with hbefore | ⟨hdown, hnot⟩
        · exact .inl ⟨hnow.phase.trans hbefore.phase, hnow.known.trans hbefore.known,
            hnow.workers.trans hbefore.workers⟩
        · exact .inr ⟨hnow.phase.trans hdown, hnot⟩
      · exact .inr ⟨hdown, fun hs => hnot (hall hs)⟩

private theorem Kept.workers_ne_nil (h : Kept s t) (hworkers : s.workers ≠ []) : t.workers ≠
    [] := by
  intro hnil
  apply hworkers
  apply List.eq_nil_of_length_eq_zero
  rw [← h.workers, hnil, List.length_nil]

private theorem exit_of_settled (h : Settled s) (hdraining : s.phase = .draining)
    (hclosed : ∀ c ∈ s.calls, c.point ≠ .recv) : step s .exit = some s.halt := by
  refine if_pos ⟨hdraining, ?_⟩
  intro c hc
  exact (h.calls c hc).resolve_right (hclosed c hc)

end Rest

def refused : Call := (Call.submitJob ExactlyOnce.sampleRequest).failed ExactlyOnce.sampleRequest

/-- Left to itself on a healthy database, a process with a worker comes to rest: however its
steps are interleaved they come to an end. There no call waits for anything but its client,
the channel is empty, the workers are idle, every job of this process is done or dead, and a
process that was told to stop can. The one way out is the panic on a negative
`max_results`. -/
theorem settles {s : State} (h : Reachable Cold step Healthy s) (hworkers : s.workers ≠ []) :
    (∀ states : ℕ → State, states 0 = s → ¬ ∀ n, Next step Own (states n) (states (n + 1))) ∧
      (∃ t, ReflTransGen (Next step Own) s t ∧ Stuck step Own t) ∧
      ∀ t, ReflTransGen (Next step Own) s t → Stuck step Own t →
        (t.phase = .down ∧ ¬ AllMakeable s) ∨
          Settled t ∧ t.phase = s.phase ∧
            (∀ id r, t.db.jobs.byId id = some r → id ∉ s.known → r.state.terminal = true) ∧
            (t.phase = .draining → (∀ c ∈ t.calls, c.point ≠ .recv) →
              step t .exit = some t.halt) := by
  have hdescends : ∀ s a t, Own s a → step s a = some t → IsDershowitzMannaLT (tasks t) (tasks s) :=
    fun _ _ _ hown hstep => tasks_lt hown.1 hstep
  refine ⟨fun states _ => not_next_forever hdescends states, exists_stuck hdescends s, ?_⟩
  intro t hpath hstuck
  rcases (kept_of_path hpath).2 with hkept | hcrashed
  · have hsettled := settled_of_stuck (hkept.workers_ne_nil hworkers) hstuck
    refine .inr ⟨hsettled, hkept.phase, ?_, exit_of_settled hsettled⟩
    intro id r hr hnew
    have hhealthy : ReflTransGen (Next step Healthy) s t :=
      ReflTransGen.mono (fun x y ⟨a, ha, hstep⟩ => ⟨a, ha.2, hstep⟩) _ _ hpath
    by_contra hopen
    have hone := holders_eq (h.path hhealthy) hr (Bool.eq_false_iff.mpr hopen)
    rw [holders_of_settled hsettled, hkept.known, if_neg hnew] at hone
    cases hone
  · exact .inl hcrashed

instance (req : Proto.Messages.JobRequest) : Decidable (Crash.Makeable req) :=
  inferInstanceAs (Decidable (0 ≤ _))

/-- One submission, before its job is on the channel, is carried to its end. -/
theorem settles_submitted :
    ∃ t, ReflTransGen (Next step Own) ExactlyOnce.submitted t ∧ Settled t ∧
      ∀ r, t.db.jobs.byId "job-1" = some r → r.state.terminal = true := by
  obtain ⟨-, ⟨t, hpath, hstuck⟩, hall⟩ :=
    settles (cold_of_migrated ExactlyOnce.submitted_reachable) (by decide)
  have hmakeable : AllMakeable ExactlyOnce.submitted := by
    constructor <;> decide
  rcases hall t hpath hstuck with ⟨-, hnot⟩ | ⟨hsettled, -, hrows, -⟩
  · exact absurd hmakeable hnot
  · exact ⟨t, hpath, hsettled, fun r hr => hrows "job-1" r hr (by decide)⟩

end TrendingPipeline.System.Settling
