/- Unit: TrendingPipeline/System/Step
   source: backend/cmd/server/main.go, backend/etl/server.go, backend/worker/worker.go
   digest: The process as a whole: calls, the job channel, the workers, and its starts and ends. -/

import Mathlib.Logic.Function.Basic
import TrendingPipeline.Base.Runs
import TrendingPipeline.Etl.Submit
import TrendingPipeline.Worker.Machine

/-!
The calls, the workers and the outside take turns in any order. An action says who moves
and what the outside answers: the outcome of a statement, a new id, the time, a response.
A list of actions is then one interleaving of the process, and a restart is a step like
the others that loses what is in memory and keeps the tables.
-/

set_option autoImplicit false
set_option relaxedAutoImplicit false

namespace TrendingPipeline.System.Step

open TrendingPipeline.Base.Runs (Reachable)
open TrendingPipeline.Proto.Messages (JobRequest)
open TrendingPipeline.Store.Tables (Db)
open TrendingPipeline.Store.Statements (Fault)
open TrendingPipeline.Etl.Submit (Call Event)
open TrendingPipeline.Worker.ProcessJob (Job)
open TrendingPipeline.Worker.Machine (Input Point)

/-- Serving, after the signal with calls still in flight, or not running. -/
inductive Phase
  | up
  | draining
  | down
  deriving DecidableEq

inductive WorkerState
  | idle
  | busy (job : Job) (point : Point)
  deriving DecidableEq

def WorkerState.holding : WorkerState → Option Job
  | .idle => none
  | .busy job _ => some job

/-- The capacity `New` gives the job channel. -/
def queueCapacity : Nat := 100

/-- The workers `main` starts. -/
def numWorkers : Nat := 5

/-- The tables, what the process holds in memory, and four history fields that no
step reads: the ids in the table when the process last started, the ids InsertJob
has returned since, which worker has finished which job since, and the size of the
last list fetched for each job. -/
structure State where
  db : Db := .empty
  phase : Phase := .down
  calls : List Call := []
  queue : List Job := []
  workers : List WorkerState := []
  known : List String := []
  inserted : List String := []
  released : List (Nat × String) := []
  fetched : String → Nat := fun _ => 0

/-- No process runs and the tables are given. -/
def State.cold (db : Db) : State where
  db := db
  known := db.jobs.rows.map (·.jobId)

/-- Memory is lost, the tables stay. -/
def State.halt (s : State) : State :=
  { s with
    phase := .down
    calls := []
    queue := []
    workers := []
    known := s.db.jobs.rows.map (·.jobId)
    inserted := []
    released := [] }

inductive Act
  /-- a SubmitJob call comes in -/
  | submitJob (req : JobRequest)
  /-- a SubmitBatch call comes in -/
  | submitBatch
  /-- the `i`-th call takes its next step -/
  | call (i : Nat) (ev : Event)
  /-- the `w`-th worker receives from the channel -/
  | receive (w : Nat)
  /-- the `w`-th worker takes its next step in processJob -/
  | work (w : Nat) (inp : Input)
  /-- the signal, and GracefulStop begins -/
  | shutdown
  /-- GracefulStop returns and `main` with it -/
  | exit
  /-- `New`, and so many workers started -/
  | boot (workers : Nat)

/-- A call's effect on the process; the send waits while the channel is full. -/
def State.afterCall (s : State) (i : Nat) (e : Etl.Submit.Effect) : Option State :=
  let s' :=
    { s with
      db := e.db
      calls := s.calls.set i e.call
      inserted := e.created.toList ++ s.inserted }
  match e.sent with
  | none => some s'
  | some job =>
      if s.queue.length < queueCapacity then some { s' with queue := s.queue ++ [job] } else none

/-- The history field `fetched` after a worker's step from `p`. -/
def recordFetch (fetched : String → Nat) (job : Job) (p : Point) :
    Worker.Machine.Next → String → Nat
  | .goto (.ingest _ videos _ _) =>
      match p with
      | .fetch _ => Function.update fetched job.id videos.length
      | _ => fetched
  | _ => fetched

/-- A worker's step and what becomes of the process: nobody recovers a panic, so it
ends the process. -/
def State.afterWork (s : State) (w : Nat) (job : Job) (p : Point) (inp : Input) : State :=
  let r := Worker.Machine.step job inp s.db p
  let s' := { s with db := r.2, fetched := recordFetch s.fetched job p r.1 }
  match r.1 with
  | .goto q => { s' with workers := s.workers.set w (.busy job q) }
  | .returned =>
      { s' with workers := s.workers.set w .idle, released := (w, job.id) :: s.released }
  | .panicked => s'.halt

theorem State.afterWork_db (s : State) (w : Nat) (job : Job) (p : Point) (inp : Input) :
    (s.afterWork w job p inp).db = (Worker.Machine.step job inp s.db p).2 := by
  unfold State.afterWork
  dsimp only
  split <;> rfl

theorem State.afterWork_memory (s : State) (w : Nat) (job : Job) (p : Point) (inp : Input) :
    ((s.afterWork w job p inp).calls = s.calls ∧ (s.afterWork w job p inp).queue = s.queue) ∨
      ((s.afterWork w job p inp).phase = .down ∧ (s.afterWork w job p inp).calls = []) := by
  unfold State.afterWork
  dsimp only
  split
  · exact .inl ⟨rfl, rfl⟩
  · exact .inl ⟨rfl, rfl⟩
  · exact .inr ⟨rfl, rfl⟩

/-- One step of the system; `none` where the action is not possible. -/
def step (s : State) : Act → Option State
  | .submitJob req =>
      if s.phase = .up then some { s with calls := s.calls ++ [Call.submitJob req] } else none
  | .submitBatch =>
      if s.phase = .up then some { s with calls := s.calls ++ [Call.submitBatch] } else none
  | .call i ev =>
      match s.calls[i]? with
      | some c => (Etl.Submit.step s.db c ev).bind (s.afterCall i)
      | none => none
  | .receive w =>
      match s.workers[w]?, s.queue with
      | some .idle, job :: rest =>
          some { s with queue := rest, workers := s.workers.set w (.busy job .start) }
      | _, _ => none
  | .work w inp =>
      match s.workers[w]? with
      | some (.busy job p) => some (s.afterWork w job p inp)
      | _ => none
  | .shutdown => if s.phase = .up then some { s with phase := .draining } else none
  | .exit =>
      if s.phase = .draining ∧ ∀ c ∈ s.calls, c.hasReturned = true then some s.halt else none
  | .boot n =>
      if s.phase = .down then
        some { s.halt with phase := .up, workers := List.replicate n .idle }
      else none

/-- The actions by what they need and what they make of the state. -/
inductive Acts (s : State) : Act → State → Prop
  | submitJob (req : JobRequest) : s.phase = .up →
      Acts s (.submitJob req) { s with calls := s.calls ++ [Call.submitJob req] }
  | submitBatch : s.phase = .up →
      Acts s .submitBatch { s with calls := s.calls ++ [Call.submitBatch] }
  | call (i : Nat) (ev : Event) (c : Call) (e : Etl.Submit.Effect) : s.calls[i]? = some c →
      Etl.Submit.step s.db c ev = some e → e.sent = none →
      Acts s (.call i ev)
        { s with
          db := e.db, calls := s.calls.set i e.call
          inserted := e.created.toList ++ s.inserted }
  | send (i : Nat) (ev : Event) (c : Call) (e : Etl.Submit.Effect) (job : Job) :
      s.calls[i]? = some c → Etl.Submit.step s.db c ev = some e → e.sent = some job →
      s.queue.length < queueCapacity →
      Acts s (.call i ev)
        { s with
          db := e.db, calls := s.calls.set i e.call
          inserted := e.created.toList ++ s.inserted, queue := s.queue ++ [job] }
  | receive (w : Nat) (job : Job) (rest : List Job) : s.workers[w]? = some .idle →
      s.queue = job :: rest →
      Acts s (.receive w) { s with queue := rest, workers := s.workers.set w (.busy job .start) }
  | work (w : Nat) (inp : Input) (job : Job) (p : Point) : s.workers[w]? = some (.busy job p) →
      Acts s (.work w inp) (s.afterWork w job p inp)
  | shutdown : s.phase = .up → Acts s .shutdown { s with phase := .draining }
  | exit : s.phase = .draining → (∀ c ∈ s.calls, c.hasReturned = true) → Acts s .exit s.halt
  | boot (n : Nat) : s.phase = .down →
      Acts s (.boot n) { s.halt with phase := .up, workers := List.replicate n .idle }

theorem acts_of_step {s t : State} {a : Act} (h : step s a = some t) : Acts s a t := by
  cases a with
  | submitJob req =>
      simp only [step] at h
      split at h
      · obtain rfl := Option.some.inj h
        exact .submitJob req ‹_›
      · cases h
  | submitBatch =>
      simp only [step] at h
      split at h
      · obtain rfl := Option.some.inj h
        exact .submitBatch ‹_›
      · cases h
  | call i ev =>
      simp only [step] at h
      split at h
      · rename_i c hc
        obtain ⟨e, hstep, hafter⟩ := Option.bind_eq_some_iff.mp h
        unfold State.afterCall at hafter
        split at hafter
        · obtain rfl := Option.some.inj hafter
          exact .call i ev c e hc hstep ‹_›
        · split at hafter
          · obtain rfl := Option.some.inj hafter
            exact .send i ev c e _ hc hstep ‹_› ‹_›
          · cases hafter
      · cases h
  | receive w =>
      simp only [step] at h
      split at h
      · obtain rfl := Option.some.inj h
        exact .receive w _ _ ‹_› ‹_›
      · cases h
  | work w inp =>
      simp only [step] at h
      split at h
      · obtain rfl := Option.some.inj h
        exact .work w inp _ _ ‹_›
      · cases h
  | shutdown =>
      simp only [step] at h
      split at h
      · obtain rfl := Option.some.inj h
        exact .shutdown ‹_›
      · cases h
  | exit =>
      simp only [step] at h
      split at h
      · rename_i hexit
        obtain rfl := Option.some.inj h
        exact .exit hexit.1 hexit.2
      · cases h
  | boot n =>
      simp only [step] at h
      split at h
      · obtain rfl := Option.some.inj h
        exact .boot n ‹_›
      · cases h

/-- The outcome an action gives to the statement of its step. -/
def Act.fault : Act → Fault
  | .call _ (.lookup fault _) => fault
  | .call _ (.insert fault _ _) => fault
  | .work _ inp => inp.fault
  | _ => .none

def Clean (_ : State) (a : Act) : Prop := a.fault ≠ .applied

/-- The id `uuid.New` gives was given to no row before. -/
def FreshId (s : State) : Act → Prop
  | .call _ (.insert _ jobId _) => s.db.jobs.byId jobId = none
  | _ => True

/-- No statement fails, except by a constraint, and ids are fresh. -/
def Healthy (s : State) (a : Act) : Prop := a.fault = .none ∧ FreshId s a

def Anything (_ : State) (_ : Act) : Prop := True

instance (s : State) (a : Act) : Decidable (Clean s a) := inferInstanceAs (Decidable (_ ≠ _))

instance (s : State) : ∀ a, Decidable (FreshId s a)
  | .call _ (.insert _ _ _) => inferInstanceAs (Decidable (_ = none))
  | .call _ (.recv _) | .call _ (.lookup _ _) | .call _ (.send _) =>
      inferInstanceAs (Decidable True)
  | .submitJob _ | .submitBatch | .receive _ | .work _ _ | .shutdown | .exit | .boot _ =>
      inferInstanceAs (Decidable True)

instance (s : State) (a : Act) : Decidable (Healthy s a) := inferInstanceAs (Decidable (_ ∧ _))

theorem Healthy.clean {s : State} {a : Act} (h : Healthy s a) : Clean s a := by
  unfold Clean
  rw [h.1]
  decide

def Cold (s : State) : Prop := ∃ db, s = State.cold db

/-- The first process is started on freshly migrated tables. -/
def Migrated (s : State) : Prop := s = State.cold .empty

theorem cold_of_migrated {ok : State → Act → Prop} {s : State}
    (h : Reachable Migrated step ok s) : Reachable Cold step ok s := by
  obtain ⟨s₀, hinit, hpath⟩ := h
  exact ⟨s₀, ⟨.empty, hinit⟩, hpath⟩

end TrendingPipeline.System.Step
