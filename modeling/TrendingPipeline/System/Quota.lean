/- Unit: TrendingPipeline/System/Quota
   source: backend/worker/worker.go, backend/etl/server.go
   digest: What the jobs let in may cost in calls of the API, in sleep and in UPDATEs. -/

import TrendingPipeline.Base.Tallies
import TrendingPipeline.System.ExactlyOnce

set_option autoImplicit false
set_option relaxedAutoImplicit false

namespace TrendingPipeline.System.Quota

open TrendingPipeline.Base.Calendar (Time)
open TrendingPipeline.Base.Holdings
open TrendingPipeline.Base.Runs
open TrendingPipeline.Base.Tallies
open TrendingPipeline.Store.Tables (Db)
open TrendingPipeline.Etl.Submit (Call)
open TrendingPipeline.Worker.ProcessJob (Job maxAttempts)
open TrendingPipeline.Worker.Machine (Input Point)
open TrendingPipeline.Worker.Effects (Steps steps_step)
open TrendingPipeline.System.Step

/-- What each step of processJob costs, and enough for that step and all after it. -/
structure Budget where
  cost : Point → Nat
  enough : Point → Nat
  pays_on : ∀ {job : Job} {inp : Input} {db db' : Db} {p q : Point},
    Steps job inp db p (.goto q) db' → cost p + enough q ≤ enough p
  pays_last : ∀ {job : Job} {inp : Input} {db db' : Db} {p : Point},
    Steps job inp db p .returned db' → cost p ≤ enough p
  pays_panic : ∀ attempt, cost (.fetch attempt) ≤ enough (.fetch attempt)

def fetches : Budget where
  cost
    | .fetch _ => 1
    | .start | .retry _ | .sleep _ | .ingest _ _ _ _ | .dead _ => 0
  enough
    | .start => maxAttempts
    | .fetch attempt => maxAttempts - attempt + 1
    | .retry attempt | .sleep attempt => maxAttempts - attempt
    | .ingest _ _ _ _ | .dead _ => 0
  pays_on h := by
    cases h with
    | started => decide
    | slept attempt hlt => dsimp only; omega
    | fetchFailed attempt => dsimp only; omega
    | _ => dsimp only; omega
  pays_last h := by
    cases h <;> exact Nat.zero_le _
  pays_panic attempt := Nat.le_add_left 1 _

/-- The UPDATEs of `jobs`. -/
def updates : Budget where
  cost
    | .start | .retry _ | .ingest _ [] _ _ | .dead _ => 1
    | _ => 0
  enough
    | .start => maxAttempts + 2
    | .fetch attempt | .retry attempt => maxAttempts - attempt + 2
    | .sleep attempt => maxAttempts - attempt + 1
    | .ingest _ _ _ _ | .dead _ => 1
  pays_on h := by
    cases h with
    | started => decide
    | startFailed => decide
    | _ => dsimp only; omega
  pays_last h := by
    cases h <;> exact Nat.le_refl _
  pays_panic attempt := Nat.zero_le _

/-- The seconds slept between this attempt and the last, the one after it included. -/
def sleepFrom (attempt : Nat) : Nat := 2 ^ attempt + (2 ^ (maxAttempts + 1) - 2 ^ (attempt + 1))

private theorem sleepFrom_succ {attempt : Nat} (h : attempt < maxAttempts) :
    2 ^ attempt + sleepFrom (attempt + 1) = sleepFrom attempt := by
  have hall : ∀ k < maxAttempts, 2 ^ k + sleepFrom (k + 1) = sleepFrom k := by decide
  exact hall attempt h

/-- The seconds of `time.Sleep`. -/
def sleeps : Budget where
  cost
    | .sleep attempt => 2 ^ attempt
    | _ => 0
  enough
    | .start => sleepFrom 1
    | .fetch attempt | .retry attempt | .sleep attempt => sleepFrom attempt
    | .ingest _ _ _ _ | .dead _ => 0
  pays_on h := by
    cases h with
    | slept attempt hlt => exact le_of_eq (sleepFrom_succ hlt)
    | exhausted attempt => exact Nat.le_add_right _ _
    | started => exact le_of_eq (Nat.zero_add _)
    | _ => dsimp only; omega
  pays_last h := by
    cases h <;> exact Nat.le_refl _
  pays_panic attempt := Nat.zero_le _

variable (b : Budget) {s t : State} {a : Act}

def costOf (s : State) : Act → Nat
  | .work w _ =>
      match s.workers[w]? with
      | some (.busy _ p) => b.cost p
      | _ => 0
  | _ => 0

def creates (s : State) : Act → Nat
  | .call i ev =>
      match s.calls[i]? with
      | some c => ((Etl.Submit.step s.db c ev).bind (·.created)).toList.length
      | none => 0
  | _ => 0

def callBudget (c : Call) : Nat := if c.holding.isSome then b.enough .start else 0

def workerBudget : WorkerState → Nat
  | .idle => 0
  | .busy _ p => b.enough p

def reserve (s : State) : Nat :=
  (s.calls.map (callBudget b)).sum + s.queue.length * b.enough .start +
    (s.workers.map (workerBudget b)).sum

private theorem callBudget_none {c : Call} (h : c.holding = none) : callBudget b c = 0 := by
  rw [callBudget, h]
  rfl

private theorem callBudget_some {c : Call} {job : Job} (h : c.holding = some job) :
    callBudget b c = b.enough .start := by
  rw [callBudget, h]
  rfl

private theorem callBudget_step {db : Db} {c : Call} {ev : Etl.Submit.Event} {e : Etl.Submit.Effect}
    (h : Etl.Submit.step db c ev = some e) :
    callBudget b e.call + e.sent.toList.length * b.enough .start ≤
      callBudget b c + e.created.toList.length * b.enough .start := by
  have hzero : ∀ d : Call, d.holding = none →
      callBudget b d + ([] : List Job).length * b.enough .start = 0 := by
    intro d hd
    rw [callBudget_none b hd, List.length_nil, Nat.zero_mul]
  cases Etl.Submit.steps_of_step h with
  | received bt received =>
      exact le_trans (le_of_eq (hzero _ Etl.Submit.Call.holding_onRecv)) (Nat.zero_le _)
  | unanswered => exact le_trans (le_of_eq (hzero _ Etl.Submit.Call.holding_failed)) (Nat.zero_le _)
  | found => exact le_trans (le_of_eq (hzero _ Etl.Submit.Call.holding_existing)) (Nat.zero_le _)
  | missed => exact le_trans (le_of_eq (hzero _ rfl)) (Nat.zero_le _)
  | rejected => exact le_trans (le_of_eq (hzero _ Etl.Submit.Call.holding_failed)) (Nat.zero_le _)
  | orphaned => exact le_trans (le_of_eq (hzero _ Etl.Submit.Call.holding_failed)) (Nat.zero_le _)
  | created req jobId now db' hpoint =>
      have hmade : callBudget b (c.created req jobId) = b.enough .start :=
        callBudget_some b Etl.Submit.Call.holding_created
      dsimp only
      rw [hmade]
      simp
  | sent job now hpoint =>
      have hheld : callBudget b c = b.enough .start := by
        have hholds : c.holding = some job := by rw [Call.holding, hpoint]
        exact callBudget_some b hholds
      have hgone : callBudget b (c.sent job now) = 0 :=
        callBudget_none b Etl.Submit.Call.holding_sent
      dsimp only
      rw [hheld, hgone]
      simp

private theorem reserve_halt (s : State) : reserve b s.halt = 0 := by
  simp [reserve, State.halt]

private theorem creates_call {i : Nat} {ev : Etl.Submit.Event} {c : Call} {e : Etl.Submit.Effect}
    (hc : s.calls[i]? = some c) (hstep : Etl.Submit.step s.db c ev = some e) :
    creates s (.call i ev) = e.created.toList.length := by
  simp only [creates, hc, hstep, Option.bind_some]

private theorem reserve_pays (h : step s a = some t) :
    costOf b s a + reserve b t ≤ reserve b s + b.enough .start * creates s a := by
  cases acts_of_step h with
  | submitJob req =>
      have hnew : callBudget b (Call.submitJob req) = 0 := rfl
      simp [costOf, creates, reserve, hnew]
  | submitBatch =>
      have hnew : callBudget b Call.submitBatch = 0 := rfl
      simp [costOf, creates, reserve, hnew]
  | call i ev c e hc hcall hnot =>
      obtain ⟨rest, hold, hset⟩ := sum_map_set hc e.call (callBudget b)
      have hhand := callBudget_step b hcall
      rw [hnot, Option.toList_none, List.length_nil, Nat.zero_mul] at hhand
      rw [creates_call hc hcall]
      simp only [costOf, reserve, hold, hset]
      rw [Nat.mul_comm (b.enough .start)]
      omega
  | send i ev c e job hc hcall hsent _ =>
      obtain ⟨rest, hold, hset⟩ := sum_map_set hc e.call (callBudget b)
      have hhand := callBudget_step b hcall
      rw [hsent] at hhand
      simp only [Option.toList_some, List.length_cons, List.length_nil] at hhand
      rw [creates_call hc hcall]
      simp only [costOf, reserve, hold, hset, List.length_append, List.length_cons,
        List.length_nil, Nat.add_mul]
      rw [Nat.mul_comm (b.enough .start)]
      omega
  | receive w job rest hw hqueue =>
      obtain ⟨others, hold, hset⟩ := sum_map_set hw (.busy job .start) (workerBudget b)
      have hidle : workerBudget b .idle = 0 := rfl
      have hbusy : workerBudget b (.busy job .start) = b.enough .start := rfl
      simp only [costOf, creates, reserve, hold, hset, hqueue, List.length_cons, hidle, hbusy,
        Nat.add_mul]
      omega
  | work w inp job p hw =>
      have hcost : costOf b s (.work w inp) = b.cost p := by simp only [costOf, hw]
      have hsteps := steps_step job inp s.db p
      rw [hcost]
      simp only [State.afterWork]
      generalize Worker.Machine.step job inp s.db p = r at hsteps
      obtain ⟨next, db⟩ := r
      cases next with
      | goto q =>
          obtain ⟨others, hold, hset⟩ := sum_map_set hw (.busy job q) (workerBudget b)
          have hpays := b.pays_on hsteps
          have hp : workerBudget b (.busy job p) = b.enough p := rfl
          have hq : workerBudget b (.busy job q) = b.enough q := rfl
          simp only [creates, reserve, hold, hset, hp, hq]
          omega
      | returned =>
          obtain ⟨others, hold, hset⟩ := sum_map_set hw .idle (workerBudget b)
          have hpays := b.pays_last hsteps
          have hp : workerBudget b (.busy job p) = b.enough p := rfl
          have hidle : workerBudget b .idle = 0 := rfl
          simp only [creates, reserve, hold, hset, hp, hidle]
          omega
      | panicked =>
          obtain ⟨attempt, rfl, -⟩ := hsteps.of_panicked
          obtain ⟨others, hold, -⟩ := sum_map_set hw .idle (workerBudget b)
          have hpays := b.pays_panic attempt
          have hp : workerBudget b (.busy job (.fetch attempt)) = b.enough (.fetch attempt) := rfl
          dsimp only
          rw [reserve_halt]
          simp only [creates, reserve, hold, hp]
          omega
  | shutdown => simp [costOf, creates, reserve]
  | exit =>
      rw [reserve_halt]
      exact Nat.zero_le _
  | boot n =>
      have hidle : (List.replicate n WorkerState.idle).map (workerBudget b) =
          List.replicate n 0 := by
        rw [List.map_replicate]
        rfl
      simp [costOf, creates, reserve, State.halt, hidle]

private theorem total_le {db : Db} {acts : List Act}
    (hrun : run step (State.cold db) acts = some t) :
    total step (costOf b) (State.cold db) acts ≤
      b.enough .start * total step creates (State.cold db) acts := by
  have hempty : reserve b (State.cold db) = 0 := by simp [reserve, State.cold]
  have hle := total_le_of_potential
    (fun s a m _ hstep => reserve_pays b (s := s) (a := a) (t := m) hstep)
    (meets_true (State.cold db) acts) hrun
  rw [hempty, total_mul] at hle
  omega

/-- Over any run, through starts and stops of the process and whatever fails, each job
that InsertJob made accounts for at most three calls of the API, 14 seconds of backoff
and five UPDATEs of its row. -/
theorem quota {db : Db} {acts : List Act} (hrun : run step (State.cold db) acts = some t) :
    let jobs := total step creates (State.cold db) acts
    total step (costOf fetches) (State.cold db) acts ≤ 3 * jobs ∧
      total step (costOf sleeps) (State.cold db) acts ≤ 14 * jobs ∧
      total step (costOf updates) (State.cold db) acts ≤ 5 * jobs :=
  ⟨total_le fetches hrun, total_le sleeps hrun, total_le updates hrun⟩

def exhausting : List Act :=
  ExactlyOnce.submission ++
    (.call 0 (.send Time.zero) :: .receive 0 :: List.replicate 11 (.work 0 {}))

theorem quota_exhausting :
    total step creates (State.cold .empty) exhausting = 1 ∧
      total step (costOf fetches) (State.cold .empty) exhausting = 3 ∧
      total step (costOf sleeps) (State.cold .empty) exhausting ≤ 14 * 1 := by
  have hjobs : total step creates (State.cold .empty) exhausting = 1 := by decide +kernel
  have hsome : (run step (State.cold .empty) exhausting).isSome = true := by decide +kernel
  have hquota := quota (run_eq_getD hsome (State.cold .empty))
  rw [hjobs] at hquota
  exact ⟨hjobs, by decide +kernel, hquota.2.1⟩

end TrendingPipeline.System.Quota
