/- Unit: TrendingPipeline/System/ExactlyOnce
   source: backend/etl/server.go, backend/worker/worker.go
   digest: Every job inserted since the process started is in one place, once. -/

import TrendingPipeline.System.Custody

set_option autoImplicit false
set_option relaxedAutoImplicit false

namespace TrendingPipeline.System.ExactlyOnce

open TrendingPipeline.Base.Calendar (Time)
open TrendingPipeline.Base.Holdings
open TrendingPipeline.Base.Runs (Reachable run)
open TrendingPipeline.Proto.Messages (JobRequest)
open TrendingPipeline.Etl.Submit (Call)
open TrendingPipeline.Worker.ProcessJob (Job)
open TrendingPipeline.System.Step
open TrendingPipeline.System.Custody

/-- The calls with the job in their hand, between InsertJob and the send. -/
def inHands (s : State) (id : String) : Nat :=
  s.calls.countP fun c => c.holding.any fun job => decide (job.id = id)

def inQueue (s : State) (id : String) : Nat := s.queue.countP fun job => decide (job.id = id)

def atWorkers (s : State) (id : String) : Nat :=
  s.workers.countP fun w => w.holding.any fun job => decide (job.id = id)

/-- How often a worker has finished the job since the process started. -/
def releases (s : State) (id : String) : Nat :=
  s.released.countP fun r => decide (r.2 = id)

def occurrences (s : State) (id : String) : Nat :=
  inHands s id + inQueue s id + atWorkers s id + releases s id

theorem count_heldIds (s : State) (id : String) :
    (ofState s).heldIds.count id = inHands s id + inQueue s id + atWorkers s id := by
  have hcount : (ofState s).heldIds.count id =
      (ofState s).held.countP fun x => x.1.id = id := by
    rw [Ledger.heldIds, Multiset.count_map, Multiset.countP_eq_card_filter]
    simp only [eq_comm]
  have hcalls : (holdings callHolds s.calls).countP (fun x => x.1.id = id) = inHands s id := by
    rw [countP_holdings]
    refine List.countP_congr ?_
    intro c _
    rw [callHolds]
    cases c.holding <;> rfl
  have hqueue : (holdings queueHolds s.queue).countP (fun x => x.1.id = id) = inQueue s id := by
    rw [countP_holdings]
    rfl
  have hworkers : (holdings workerHolds s.workers).countP (fun x => x.1.id = id) =
      atWorkers s id := by
    rw [countP_holdings]
    refine List.countP_congr ?_
    intro w _
    cases w <;> rfl
  rw [hcount, ofState, Multiset.countP_add, Multiset.countP_add, hcalls, hqueue, hworkers]

theorem occurrences_eq_count {s : State} (h : Balanced (ofState s)) (id : String) :
    occurrences s id = s.inserted.count id := by
  have hbalance := congrArg (Multiset.count id) h.balance
  rw [Multiset.count_add, count_heldIds, Multiset.coe_count, Multiset.coe_count] at hbalance
  have hreleased : (ofState s).released.count id = releases s id := by
    simp only [ofState, List.count, List.countP_map]
    refine List.countP_congr ?_
    intro r _
    simp
  rw [hreleased] at hbalance
  exact hbalance

theorem inserted_iff {s : State} (h : Reachable Cold step Clean s) (id : String) :
    id ∈ s.inserted ↔ id ∈ s.db.jobs.rows.map (·.jobId) ∧ id ∉ s.known := by
  have hbal := balanced_of_reachable (h.mono fun _ _ _ => trivial)
  constructor
  · exact fun hid => ⟨hbal.present id hid, hbal.apart id hid⟩
  · rintro ⟨hid, hnew⟩
    exact (accounted_of_reachable h id hid).resolve_left hnew

/-- One row for each key, and one place for each row inserted since the process
started; what is not such a row is nowhere. -/
theorem exactlyOnce {s : State} (h : Reachable Cold step Clean s) :
    (∀ key, s.db.jobs.rows.countP (fun r => decide (r.idempotencyKey = key)) ≤ 1) ∧
      ∀ id, occurrences s id =
        if id ∈ s.db.jobs.rows.map (·.jobId) ∧ id ∉ s.known then 1 else 0 := by
  have hbal := balanced_of_reachable (h.mono fun _ _ _ => trivial)
  constructor
  · intro key
    have hcount := List.nodup_iff_count_le_one.mp s.db.jobs.key_nodup key
    rw [List.count, List.countP_map] at hcount
    refine le_trans (le_of_eq ?_) hcount
    refine List.countP_congr ?_
    intro r _
    simp
  · intro id
    rw [occurrences_eq_count hbal]
    split
    · exact List.count_eq_one_of_mem hbal.nodup ((inserted_iff h id).mpr ‹_›)
    · exact List.count_eq_zero_of_not_mem fun hid => ‹¬ _› ((inserted_iff h id).mp hid)

def sampleRequest : JobRequest :=
  { region := "US", maxResults := 5, idempotencyKey := "us-1" }

def submission : List Act :=
  [.boot numWorkers, .submitJob sampleRequest, .call 0 (.lookup .none Time.zero),
    .call 0 (.insert .none "job-1" Time.zero)]

def submitted : State := (run step (State.cold .empty) submission).getD (State.cold .empty)

private theorem run_submission : run step (State.cold .empty) submission = some submitted := by
  rfl

theorem submitted_reachable : Reachable Migrated step Healthy submitted :=
  .of_run rfl run_submission (by decide)

theorem submitted_inHands :
    inHands submitted "job-1" = 1 ∧ occurrences submitted "job-1" = 1 := by
  have hreach : Reachable Cold step Clean submitted :=
    (cold_of_migrated submitted_reachable).mono fun _ _ h => h.clean
  refine ⟨by decide, ?_⟩
  rw [(exactlyOnce hreach).2 "job-1"]
  decide

end TrendingPipeline.System.ExactlyOnce
