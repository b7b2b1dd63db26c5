/- Unit: TrendingPipeline/System/Restart
   source: backend/cmd/server/main.go, backend/etl/server.go
   digest: The unfinished jobs a process holds are those it inserted; no other is taken up again. -/

import TrendingPipeline.System.Lifecycle

set_option autoImplicit false
set_option relaxedAutoImplicit false

namespace TrendingPipeline.System.Restart

open Relation (ReflTransGen)
open TrendingPipeline.Base.Calendar (Time)
open TrendingPipeline.Base.Holdings
open TrendingPipeline.Base.Runs (Next Reachable run)
open TrendingPipeline.Store.Tables (JobRow JobsTable)
open TrendingPipeline.Store.Statements (Fault getJobByIdempotencyKey)
open TrendingPipeline.System.Step
open TrendingPipeline.System.Custody
open TrendingPipeline.System.ExactlyOnce
open TrendingPipeline.System.Lifecycle (row_of_not_updates updates)
open TrendingPipeline.System.Rows

def Settled (l : Ledger) : Prop :=
  ∀ id ∈ l.released, ∃ r, l.db.jobs.byId id = some r ∧ r.state.terminal = true

theorem Settled.step {l l' : Ledger} (hten : Tended l) (h : Settled l)
    (hmove : Moves (· = Fault.none) l l') : Settled l' := by
  have hkept : ∀ id ∈ l.released,
      ∃ r, l'.db.jobs.byId id = some r ∧ r.state.terminal = true := by
    intro id hid
    obtain ⟨r, hr, hterm⟩ := h id hid
    obtain ⟨r', hr', hprogress⟩ := progresses_of_moves hten hmove hr
    rcases hprogress with rfl | ⟨hopen, -⟩
    · exact ⟨r', hr', hterm⟩
    · rw [hopen.not_terminal] at hterm
      cases hterm
  cases hmove with
  | quiet => exact hkept
  | create => exact hkept
  | orphan => exact hkept
  | enqueue => exact hkept
  | receive => exact hkept
  | work => exact hkept
  | release job p inp db rest hheld hfault hsteps =>
      intro id hid
      rcases List.mem_cons.mp hid with rfl | hid
      · obtain ⟨_, r', _, hr', _, hafter⟩ := hten.row hheld hsteps
        rcases hafter with hclosed | ⟨hlost, -⟩
        · exact ⟨r', hr', hclosed.terminal⟩
        · rw [hfault] at hlost
          cases hlost
      · exact hkept id hid
  | halt => exact fun id hid => absurd hid List.not_mem_nil

variable {s t : State}

private theorem settled_of_reachable (h : Reachable Cold step Healthy s) : Settled (ofState s) := by
  refine (h.invariant
    (I := fun s => Reachable Cold step Anything s ∧ Settled (ofState s)) ?_ ?_).2
  · rintro _ ⟨db, rfl⟩
    exact ⟨⟨_, ⟨db, rfl⟩, .refl⟩, fun id hid => absurd hid List.not_mem_nil⟩
  · rintro s a t ⟨hreach, hset⟩ hhealthy hstep
    exact ⟨hreach.next trivial hstep,
      hset.step (tended_of_reachable hreach) (moves_step hhealthy.1 hstep)⟩

/-- How often a job is held: by a submitter, in the channel, or by a worker. -/
def holders (s : State) (id : String) : Nat := inHands s id + inQueue s id + atWorkers s id

theorem holders_eq (h : Reachable Cold step Healthy s) {id : String} {r : JobRow}
    (hr : s.db.jobs.byId id = some r) (hopen : r.state.terminal = false) :
    holders s id = if id ∈ s.known then 0 else 1 := by
  have hclean : Reachable Cold step Clean s := h.mono fun _ _ h => h.clean
  have hbal := balanced_of_reachable (h.mono fun _ _ _ => trivial)
  have hmem : id ∈ s.db.jobs.rows.map (·.jobId) :=
    JobsTable.byId_isSome_iff.mp (by rw [hr]; rfl)
  have hoccur : holders s id + releases s id = s.inserted.count id := occurrences_eq_count hbal id
  split
  · rename_i hknown
    have hnot : id ∉ s.inserted := fun hid => hbal.apart id hid hknown
    rw [List.count_eq_zero_of_not_mem hnot] at hoccur
    omega
  · rename_i hnew
    have hinserted : id ∈ s.inserted := (inserted_iff hclean id).mpr ⟨hmem, hnew⟩
    have hnodup : s.inserted.Nodup := hbal.nodup
    rw [List.count_eq_one_of_mem hnodup hinserted] at hoccur
    have hzero : releases s id = 0 := by
      refine List.countP_eq_zero.mpr ?_
      intro x hx hid
      have hreleased : id ∈ (ofState s).released :=
        List.mem_map.mpr ⟨x, hx, of_decide_eq_true hid⟩
      obtain ⟨r', hr', hterm⟩ := settled_of_reachable h id hreleased
      obtain rfl := Option.some.inj (hr.symm.trans hr')
      rw [hopen] at hterm
      cases hterm
    omega

private theorem known_of_moves {ok : Fault → Prop} {l l' : Ledger} (hbal : Balanced l)
    (hmove : Moves ok l l') {id : String} (hid : id ∈ l.known) : id ∈ l'.known := by
  cases hmove with
  | halt => exact hbal.before id hid
  | quiet => exact hid
  | create => exact hid
  | orphan => exact hid
  | enqueue => exact hid
  | receive => exact hid
  | work => exact hid
  | release => exact hid

private theorem not_updates_of_known (h : Reachable Cold step Anything s) {id : String}
    (hid : id ∈ s.known) (a : Act) : updates s a ≠ some id := by
  intro hupdates
  have hbal := balanced_of_reachable h
  obtain ⟨job, p, hheld, rfl⟩ := Lifecycle.held_of_updates hupdates
  have hmem : job.id ∈ (ofState s).heldIds := Multiset.mem_map.mpr ⟨_, hheld, rfl⟩
  have hinserted : job.id ∈ (ofState s).inserted := by
    have hsum : job.id ∈ (ofState s).heldIds + (ofState s).released :=
      Multiset.mem_add.mpr (.inl hmem)
    rw [hbal.balance] at hsum
    exact hsum
  exact hbal.apart job.id hinserted hid

private theorem untouched_of_known (h : Reachable Cold step Anything s) {id : String} {r : JobRow}
    (hid : id ∈ s.known) (hr : s.db.jobs.byId id = some r)
    (hpath : ReflTransGen (Next step Anything) s t) :
    id ∈ t.known ∧ t.db.jobs.byId id = some r := by
  refine h.stays (P := fun u => id ∈ u.known ∧ u.db.jobs.byId id = some r) ?_ ⟨hid, hr⟩ hpath
  rintro u a v hu ⟨hknown, hrow⟩ _ hstep
  exact ⟨known_of_moves (balanced_of_reachable hu) (moves_any hstep) hknown,
    row_of_not_updates hstep hrow (not_updates_of_known hu hknown a)⟩

/-- An unfinished job is held, and by one holder only, exactly when it was inserted
since the process started. Any other stays as it is for ever, holds its key, and is
held by nobody. -/
theorem held_iff_insertedSinceStart (h : Reachable Cold step Healthy s) {id : String} {r : JobRow}
    (hr : s.db.jobs.byId id = some r) (hopen : r.state.terminal = false) :
    (holders s id = if id ∈ s.known then 0 else 1) ∧
      (id ∈ s.known → ∀ t, ReflTransGen (Next step Healthy) s t →
        t.db.jobs.byId id = some r ∧
          getJobByIdempotencyKey t.db r.idempotencyKey = some r ∧ holders t id = 0) := by
  refine ⟨holders_eq h hr hopen, ?_⟩
  intro hid t hpath
  have hanything : ReflTransGen (Next step Anything) s t :=
    ReflTransGen.mono (fun x y ⟨a, _, hstep⟩ => ⟨a, trivial, hstep⟩) _ _ hpath
  obtain ⟨hknown, hrow⟩ := untouched_of_known (h.mono fun _ _ _ => trivial) hid hr hanything
  refine ⟨hrow, ?_, ?_⟩
  · exact JobsTable.byKey_eq_some_iff.mpr ⟨(JobsTable.byId_eq_some_iff.mp hrow).1, rfl⟩
  · rw [holders_eq (h.path hpath) hrow hopen, if_pos hknown]

/-- The submission is answered, the process stops and a new one starts. -/
def restart : List Act :=
  submission ++ [.call 0 (.send Time.zero), .shutdown, .exit, .boot numWorkers]

def restarted : State := (run step (State.cold .empty) restart).getD (State.cold .empty)

private theorem run_restart : run step (State.cold .empty) restart = some restarted := by
  rfl

private theorem restarted_reachable : Reachable Migrated step Healthy restarted :=
  .of_run rfl run_restart (by decide)

theorem held_iff_insertedSinceStart_restarted :
    ∃ r, restarted.db.jobs.byId "job-1" = some r ∧ r.state = .queued ∧
      holders restarted "job-1" = 0 := by
  have hknown : "job-1" ∈ restarted.known := by decide
  refine ⟨_, rfl, rfl, ?_⟩
  have hrow : restarted.db.jobs.byId "job-1" = some _ := rfl
  rw [(held_iff_insertedSinceStart (cold_of_migrated restarted_reachable) hrow rfl).1,
    if_pos hknown]

/-- The job that was queued is held by nobody, and its key is answered with its id. -/
theorem restarted_orphan :
    Reachable Migrated step Healthy restarted ∧ restarted.phase = .up ∧
      (restarted.db.jobs.byId "job-1").map (·.state) = some .queued ∧
      holders restarted "job-1" = 0 ∧
      (run step restarted [.submitJob sampleRequest, .call 0 (.lookup .none Time.zero)]).map
        (fun s => s.calls.map (·.answers)) = some [[(sampleRequest, .existing "job-1")]] :=
  ⟨restarted_reachable, by decide, by decide, by decide, by decide⟩

end TrendingPipeline.System.Restart
