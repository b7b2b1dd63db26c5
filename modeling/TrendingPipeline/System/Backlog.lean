/- Unit: TrendingPipeline/System/Backlog
   source: backend/etl/server.go, backend/worker/worker.go, backend/cmd/server/main.go
   digest: The channel is first in first out, and the unfinished rows are those on their way. -/

import TrendingPipeline.Base.Tallies
import TrendingPipeline.System.Crash
import TrendingPipeline.System.Restart
import TrendingPipeline.System.SameKey

set_option autoImplicit false
set_option relaxedAutoImplicit false

namespace TrendingPipeline.System.Backlog

open TrendingPipeline.Base.Holdings
open TrendingPipeline.Base.Runs
open TrendingPipeline.Base.Tallies
open TrendingPipeline.Store.Tables (JobRow JobsTable)
open TrendingPipeline.Worker.ProcessJob (Job)
open TrendingPipeline.System.Crash (crashes)
open TrendingPipeline.System.Custody
open TrendingPipeline.System.ExactlyOnce
open TrendingPipeline.System.Restart (holders holders_eq)
open TrendingPipeline.System.Rows (heldIds_nodup tended_of_reachable)
open TrendingPipeline.System.SameKey (booted)
open TrendingPipeline.System.Step

variable {s t : State} {a : Act}

def puts (s : State) : Act → Option Job
  | .call i ev => (s.calls[i]?).bind fun c => (Etl.Submit.step s.db c ev).bind (·.sent)
  | _ => none

def takes (s : State) : Act → Option Job
  | .receive _ => s.queue.head?
  | _ => none

def restarts : Act → Bool
  | .exit | .boot _ => true
  | _ => false

def SameProcess (s : State) (a : Act) : Prop := restarts a = false ∧ crashes s a = false

instance (s : State) (a : Act) : Decidable (SameProcess s a) := inferInstanceAs (Decidable (_ ∧ _))

private theorem queue_step (hsame : SameProcess s a) (h : step s a = some t) :
    s.queue ++ (puts s a).toList = (takes s a).toList ++ t.queue := by
  obtain ⟨hstays, hcrash⟩ := hsame
  cases acts_of_step h with
  | submitJob => exact List.append_nil _
  | submitBatch => exact List.append_nil _
  | shutdown => exact List.append_nil _
  | exit => cases hstays
  | boot n => cases hstays
  | call i ev c e hc hcall hnot =>
      have hputs : puts s (.call i ev) = none := by
        simp only [puts, hc, hcall, Option.bind_some, hnot]
      rw [hputs]
      exact List.append_nil _
  | send i ev c e job hc hcall hsent _ =>
      have hputs : puts s (.call i ev) = some job := by
        simp only [puts, hc, hcall, Option.bind_some, hsent]
      rw [hputs]
      rfl
  | receive w job rest hw hqueue =>
      have htakes : takes s (.receive w) = some job := by rw [takes, hqueue, List.head?_cons]
      rw [htakes]
      exact (List.append_nil _).trans hqueue
  | work w inp job p hw =>
      have hqueue : (s.afterWork w job p inp).queue = s.queue := by
        simp only [crashes, hw, decide_eq_false_iff_not] at hcrash
        unfold State.afterWork
        dsimp only
        split
        · rfl
        · rfl
        · exact absurd ‹_› hcrash
      rw [hqueue]
      exact List.append_nil _

private theorem length_queue_le (h : Reachable Cold step Anything s) :
    s.queue.length ≤ queueCapacity := by
  refine h.invariant (I := fun s => s.queue.length ≤ queueCapacity) ?_ ?_
  · rintro _ ⟨db, rfl⟩
    exact Nat.zero_le _
  · intro s a t hle _ hstep
    cases acts_of_step hstep with
    | submitJob => exact hle
    | submitBatch => exact hle
    | call => exact hle
    | shutdown => exact hle
    | exit => exact Nat.zero_le _
    | boot => exact Nat.zero_le _
    | send i ev c e job _ _ _ hroom =>
        change (s.queue ++ [job]).length ≤ queueCapacity
        rw [List.length_append, List.length_singleton]
        exact hroom
    | receive w job rest _ hqueue =>
        rw [hqueue, List.length_cons] at hle
        exact Nat.le_of_succ_le hle
    | work w inp job p _ =>
        unfold State.afterWork
        dsimp only
        split
        · exact hle
        · exact hle
        · exact Nat.zero_le _

/-- In one process the workers take the jobs in the order in which they were put on the
channel, which holds the rest. -/
theorem channel_fifo {db : Store.Tables.Db} {n : Nat} {acts : List Act}
    (hsame : Meets step SameProcess (booted db n) acts)
    (hrun : run step (booted db n) acts = some t) :
    trace step puts (booted db n) acts =
      trace step takes (booted db n) acts ++ t.queue := by
  have hfifo : (booted db n).queue ++ trace step puts (booted db n) acts =
      trace step takes (booted db n) acts ++ t.queue :=
    first_in_first_out (fun _ _ _ hok hstep => queue_step hok hstep) hsame hrun
  have hempty : (booted db n).queue = [] := rfl
  rwa [hempty, List.nil_append] at hfifo

def unfinished (s : State) : List JobRow :=
  s.db.jobs.rows.filter fun r => !r.state.terminal && decide (r.jobId ∉ s.known)

def handsFull (s : State) : Nat := s.calls.countP fun c => c.holding.isSome

def busy (s : State) : Nat := s.workers.countP fun x => x.holding.isSome

private theorem mem_unfinished_iff {id : String} : id ∈ (unfinished s).map (·.jobId) ↔
    ∃ r, s.db.jobs.byId id = some r ∧ r.state.terminal = false ∧ id ∉ s.known := by
  simp only [unfinished, List.mem_map, List.mem_filter, Bool.and_eq_true, Bool.not_eq_true',
    decide_eq_true_eq]
  constructor
  · rintro ⟨r, ⟨hmem, hopen, hnew⟩, rfl⟩
    exact ⟨r, JobsTable.byId_eq_some_iff.mpr ⟨hmem, rfl⟩, hopen, hnew⟩
  · rintro ⟨r, hr, hopen, hnew⟩
    obtain ⟨hmem, rfl⟩ := JobsTable.byId_eq_some_iff.mp hr
    exact ⟨r, ⟨hmem, hopen, hnew⟩, rfl⟩

private theorem nodup_unfinished (s : State) : ((unfinished s).map (·.jobId)).Nodup :=
  s.db.jobs.jobId_nodup.sublist (List.filter_sublist.map _)

private theorem heldIds_eq (h : Reachable Cold step Healthy s) :
    (ofState s).heldIds = ↑((unfinished s).map (·.jobId)) := by
  have hany : Reachable Cold step Anything s := h.mono fun _ _ _ => trivial
  have hbal := balanced_of_reachable hany
  refine (Multiset.Nodup.ext (heldIds_nodup hbal)
    (Multiset.coe_nodup.mpr (nodup_unfinished s))).mpr fun id => ?_
  rw [Multiset.mem_coe, mem_unfinished_iff]
  constructor
  · intro hid
    obtain ⟨x, hx, rfl⟩ := Multiset.mem_map.mp hid
    obtain ⟨r, hr, hat⟩ := tended_of_reachable hany x hx
    refine ⟨r, hr, hat.isOpen.not_terminal, hbal.apart _ ?_⟩
    have hsum : x.1.id ∈ (ofState s).heldIds + (ofState s).released :=
      Multiset.mem_add.mpr (.inl hid)
    rwa [hbal.balance] at hsum
  · rintro ⟨r, hr, hopen, hnew⟩
    have hone := holders_eq h hr hopen
    rw [if_neg hnew, holders, ← count_heldIds] at hone
    apply Multiset.one_le_count_iff_mem.mp
    omega

private theorem card_heldIds (s : State) :
    (ofState s).heldIds.card = handsFull s + s.queue.length + busy s := by
  have hcalls : (holdings callHolds s.calls).card = handsFull s := by
    rw [holdings, Multiset.coe_card, List.length_filterMap_eq_countP, handsFull]
    refine List.countP_congr fun c _ => ?_
    rw [callHolds]
    cases c.holding <;> rfl
  have hqueue : (holdings queueHolds s.queue).card = s.queue.length := by
    rw [holdings, Multiset.coe_card, List.length_filterMap_eq_countP]
    exact List.countP_eq_length.mpr fun _ _ => rfl
  have hworkers : (holdings workerHolds s.workers).card = busy s := by
    rw [holdings, Multiset.coe_card, List.length_filterMap_eq_countP, busy]
    refine List.countP_congr fun x _ => ?_
    cases x <;> rfl
  rw [Ledger.heldIds, Multiset.card_map, ofState, Multiset.card_add, Multiset.card_add, hcalls,
    hqueue, hworkers]

/-- The rows of this process that are not finished are as many as the submitters with a
job in hand, the jobs in the channel and the busy workers together, so never more than
the calls in flight, the workers and a hundred. -/
theorem backlog (h : Reachable Cold step Healthy s) :
    (unfinished s).length = handsFull s + s.queue.length + busy s ∧
      (unfinished s).length ≤
        (s.calls.countP fun c => !c.hasReturned) + 100 + s.workers.length := by
  have hcard := congrArg Multiset.card (heldIds_eq h)
  rw [card_heldIds, Multiset.coe_card, List.length_map] at hcard
  have hcalls : handsFull s ≤ s.calls.countP fun c => !c.hasReturned := by
    refine List.countP_mono_left fun c _ hfull => ?_
    obtain ⟨job, hjob⟩ := Option.isSome_iff_exists.mp hfull
    unfold Etl.Submit.Call.holding at hjob
    unfold Etl.Submit.Call.hasReturned
    cases hpoint : c.point with
    | send => rfl
    | recv => simp [hpoint] at hjob
    | lookup => simp [hpoint] at hjob
    | insert => simp [hpoint] at hjob
    | returned => simp [hpoint] at hjob
  have hworkers : busy s ≤ s.workers.length := List.countP_le_length
  have hqueue : s.queue.length ≤ 100 := length_queue_le (h.mono fun _ _ _ => trivial)
  exact ⟨hcard.symm, by omega⟩

theorem backlog_submitted : (unfinished submitted).length = 1 := by
  rw [(backlog (cold_of_migrated submitted_reachable)).1]
  decide

end TrendingPipeline.System.Backlog
