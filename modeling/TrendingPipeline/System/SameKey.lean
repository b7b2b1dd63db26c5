/- Unit: TrendingPipeline/System/SameKey
   source: backend/etl/server.go, backend/db/db.go
   digest: What submissions with one key are told, and when they agree. -/

import TrendingPipeline.Base.CheckThenInsert
import TrendingPipeline.Etl.Replies
import TrendingPipeline.System.ExactlyOnce

/-!
For one key the process is a small race: who holds the key, how many submissions are between
their lookup and their INSERT, and what has been told. A step of the process is a step of it
or leaves it alone, so the answers to all submissions of the key follow from its rules.
-/

set_option autoImplicit false
set_option relaxedAutoImplicit false

namespace TrendingPipeline.System.SameKey

open TrendingPipeline.Base.Calendar (Time)
open TrendingPipeline.Base.CheckThenInsert
open TrendingPipeline.Base.Holdings
open TrendingPipeline.Base.Runs
open TrendingPipeline.Proto.Messages (JobRequest)
open TrendingPipeline.Store.Tables (Db JobProgress JobRow JobsTable)
open TrendingPipeline.Store.Statements
open TrendingPipeline.Etl.Submit (Answer Call)
open TrendingPipeline.Etl.Replies (Coherent Tells coherent_submitBatch coherent_submitJob)
open TrendingPipeline.Worker.Effects (steps_step)
open TrendingPipeline.System.Step
open TrendingPipeline.System.ExactlyOnce (sampleRequest)

def verdict : Answer → Verdict String
  | .failed => .failed
  | .existing id => .existing id
  | .created id => .created id

def toldIn (key : String) (answers : List (JobRequest × Answer)) : Multiset (Verdict String) :=
  ↑(answers.filterMap fun x =>
    if x.1.idempotencyKey = key then some (verdict x.2) else none)

def inserts (key : String) (c : Call) : Bool := c.inserting.any fun req => req.idempotencyKey = key

/-- The submissions of a key between their lookup and their INSERT. -/
def pending (key : String) (s : State) : Nat := s.calls.countP (inserts key)

def told (key : String) (s : State) : Multiset (Verdict String) :=
  (s.calls.map fun c => toldIn key c.answers).sum

def holder (key : String) (db : Db) : Option String := (db.jobs.byKey key).map (·.jobId)

def raceOf (key : String) (s : State) : Race String := ⟨holder key s.db, pending key s, told key s⟩

variable {key : String} {s t : State} {a : Act}

private theorem toldIn_append (answers : List (JobRequest × Answer)) (req : JobRequest)
    (answer : Answer) :
    toldIn key (answers ++ [(req, answer)]) =
      if req.idempotencyKey = key then verdict answer ::ₘ toldIn key answers
      else toldIn key answers := by
  by_cases hkey : req.idempotencyKey = key
  · simp [toldIn, hkey, ← Multiset.coe_add, add_comm]
  · simp [toldIn, hkey]

/-- One call takes a step, from `c` to `d`. The others account for `n` of the pending
submissions and for `R` of what was told. -/
structure Turn (key : String) (s t : State) (c d : Call) (n : Nat)
    (R : Multiset (Verdict String)) : Prop where
  pending_before : pending key s = n + if inserts key c then 1 else 0
  pending_after : pending key t = n + if inserts key d then 1 else 0
  told_before : told key s = toldIn key c.answers + R
  told_after : told key t = toldIn key d.answers + R

variable (key) in
private theorem turn_of_call {i : Nat} {c d : Call} (hc : s.calls[i]? = some c)
    (ht : t.calls = s.calls.set i d) : ∃ n R, Turn key s t c d n R := by
  obtain ⟨n, hs, ht'⟩ := countP_set hc d (inserts key)
  obtain ⟨R, hsum, hsum'⟩ := sum_map_set hc d fun c => toldIn key c.answers
  exact ⟨n, R, hs, by rw [pending, ht, ht'], hsum, by rw [told, ht, hsum']⟩

section Turn

variable {c d : Call} {n : Nat} {R : Multiset (Verdict String)}

private theorem Turn.pending_eq (h : Turn key s t c d n R) (hsame : inserts key d = inserts key c) :
    pending key t = pending key s := by
  rw [h.pending_after, h.pending_before, hsame]

private theorem Turn.pending_succ (h : Turn key s t c d n R) (hc : inserts key c = false)
    (hd : inserts key d = true) : pending key t = pending key s + 1 := by
  rw [h.pending_after, h.pending_before, hc, hd]
  rfl

private theorem Turn.pending_pred (h : Turn key s t c d n R) (hc : inserts key c = true)
    (hd : inserts key d = false) : pending key s = pending key t + 1 := by
  rw [h.pending_after, h.pending_before, hc, hd]
  rfl

private theorem Turn.told_eq (h : Turn key s t c d n R) (hsame : d.answers = c.answers) :
    told key t = told key s := by
  rw [h.told_after, h.told_before, hsame]

theorem Turn.answered (h : Turn key s t c d n R) {req : JobRequest} {answer : Answer}
    (hanswers : d.answers = c.answers ++ [(req, answer)]) :
    told key t =
      if req.idempotencyKey = key then verdict answer ::ₘ told key s else told key s := by
  rw [h.told_after, hanswers, toldIn_append, h.told_before]
  split
  · rw [Multiset.cons_add]
  · rfl

end Turn

def looksUp (key : String) (s : State) : Act → Bool
  | .call i (.lookup _ _) =>
      match s.calls[i]? with
      | some c =>
          match c.point with
          | .lookup req => req.idempotencyKey = key
          | _ => false
      | none => false
  | _ => false

/-- A step of the process as a step of the race; a lookup that finds no holder adds
a pending caller, and nothing else does. -/
structure Raced (key : String) (s : State) (a : Act) (t : State) : Prop where
  steps : Steps (raceOf key s) (raceOf key t)
  other : looksUp key s a = false → pending key t ≤ pending key s
  miss : looksUp key s a = true → holder key s.db = none → pending key s < pending key t

theorem Raced.quiet (hholder : holder key t.db = holder key s.db)
    (hpending : pending key t = pending key s) (htold : told key t = told key s)
    (hlooks : looksUp key s a = false) : Raced key s a t where
  steps := by
    have hsame : raceOf key t = raceOf key s := by
      rw [raceOf, raceOf, hholder, hpending, htold]
    rw [hsame]
    exact .quiet _
  other _ := hpending.le
  miss h := by
    rw [hlooks] at h
    cases h

private theorem holder_of_byKey {db : Db} {row : JobRow} (h : db.jobs.byKey key = some row) :
    holder key db = some row.jobId := by
  rw [holder, h]
  rfl

private theorem holder_of_free {db : Db} (h : db.jobs.byKey key = none) : holder key db = none := by
  rw [holder, h]
  rfl

private theorem holder_updateJob (db : Db) (id : String) (g : JobProgress → JobProgress) :
    holder key (updateJob db id g) = holder key db := by
  rw [holder, holder, updateJob, JobsTable.byKey_update, Option.map_map]
  refine Option.map_congr ?_
  intro r _
  simp only [Function.comp]
  split <;> rfl

private theorem holder_insertJob {db db' : Db} {now : Time} {jobId : String} {req : JobRequest}
    (h : insertJob db now jobId req = some db') :
    holder key db' = if req.idempotencyKey = key then some jobId else holder key db := by
  rw [holder, byKey_insertJob h]
  split <;> rfl

private theorem inserts_of_none {c : Call} (h : c.inserting = none) : inserts key c = false := by
  rw [inserts, h]
  rfl

private theorem inserts_of_some {c : Call} {req : JobRequest} (h : c.inserting = some req) :
    inserts key c = decide (req.idempotencyKey = key) := by
  rw [inserts, h]
  rfl

section Calls

variable {i : Nat} {c : Call} {n : Nat} {R : Multiset (Verdict String)} {req : JobRequest}
  {now : Time}

private theorem inserts_of_lookup (hpoint : c.point = .lookup req) : inserts key c = false :=
  inserts_of_none (by rw [Call.inserting, hpoint])

private theorem inserts_of_insert (hpoint : c.point = .insert req) :
    inserts key c = decide (req.idempotencyKey = key) :=
  inserts_of_some (by rw [Call.inserting, hpoint])

private theorem looksUp_lookup {fault : Fault} (hc : s.calls[i]? = some c)
    (hpoint : c.point = .lookup req) :
    looksUp key s (.call i (.lookup fault now)) = decide (req.idempotencyKey = key) := by
  simp only [looksUp, hc, hpoint]

private theorem raced_found {row : JobRow} (h : Turn key s t c (c.existing req row.jobId now) n R)
    (hc : s.calls[i]? = some c) (hpoint : c.point = .lookup req)
    (hrow : s.db.jobs.byKey req.idempotencyKey = some row) (hdb : t.db = s.db) :
    Raced key s (.call i (.lookup .none now)) t := by
  have hpending : pending key t = pending key s :=
    h.pending_eq (by rw [inserts_of_lookup hpoint, inserts_of_none Call.inserting_existing])
  have htold := h.answered Call.answers_existing
  by_cases hkey : req.idempotencyKey = key
  · subst hkey
    have hholder := holder_of_byKey hrow
    rw [if_pos rfl] at htold
    refine ⟨?_, fun _ => hpending.le, ?_⟩
    · rw [raceOf, raceOf, hdb, hholder, hpending, htold]
      exact .hit _ _ _
    · intro _ hnone
      rw [hholder] at hnone
      cases hnone
  · rw [if_neg hkey] at htold
    exact .quiet (by rw [hdb]) hpending htold (by simp [looksUp_lookup hc hpoint, hkey])

private theorem raced_missed (h : Turn key s t c { c with point := .insert req } n R)
    (hc : s.calls[i]? = some c) (hpoint : c.point = .lookup req)
    (hfree : s.db.jobs.byKey req.idempotencyKey = none) (hdb : t.db = s.db) :
    Raced key s (.call i (.lookup .none now)) t := by
  have htold : told key t = told key s := h.told_eq rfl
  have hnext : inserts key { c with point := .insert req } =
      decide (req.idempotencyKey = key) := inserts_of_insert rfl
  by_cases hkey : req.idempotencyKey = key
  · subst hkey
    have hpending := h.pending_succ (inserts_of_lookup hpoint) (by simpa using hnext)
    refine ⟨?_, ?_, fun _ _ => by omega⟩
    · rw [raceOf, raceOf, hdb, holder_of_free hfree, hpending, htold]
      exact .miss _ _
    · intro hlooks
      rw [looksUp_lookup hc hpoint] at hlooks
      simp at hlooks
  · have hpending : pending key t = pending key s :=
      h.pending_eq (by rw [hnext, inserts_of_lookup hpoint, decide_eq_false hkey])
    exact .quiet (by rw [hdb]) hpending htold (by simp [looksUp_lookup hc hpoint, hkey])

private theorem raced_created {jobId : String} (h : Turn key s t c (c.created req jobId) n R)
    (hpoint : c.point = .insert req) (hinsert : insertJob s.db now jobId req = some t.db) :
    Raced key s (.call i (.insert .none jobId now)) t := by
  have hbefore : inserts key c = decide (req.idempotencyKey = key) := inserts_of_insert hpoint
  have hafter : inserts key (c.created req jobId) = false := inserts_of_none Call.inserting_created
  have htold := h.answered Call.answers_created
  have hholder : holder key t.db = _ := holder_insertJob hinsert
  by_cases hkey : req.idempotencyKey = key
  · subst hkey
    have hfree := (insertJob_isSome_iff.mp (Option.isSome_of_eq_some hinsert)).2
    have hpending := h.pending_pred (by simpa using hbefore) hafter
    rw [if_pos rfl] at htold hholder
    refine ⟨?_, fun _ => by omega, nofun⟩
    rw [raceOf, raceOf, hholder, holder_of_free hfree, hpending, htold]
    exact .win _ _ _
  · have hpending : pending key t = pending key s :=
      h.pending_eq (by rw [hafter, hbefore, decide_eq_false hkey])
    rw [if_neg hkey] at htold hholder
    exact .quiet hholder hpending htold rfl

private theorem raced_rejected {jobId : String} (h : Turn key s t c (c.failed req) n R)
    (hpoint : c.point = .insert req) (hfresh : s.db.jobs.byId jobId = none)
    (hnot : insertJob s.db now jobId req = none) (hdb : t.db = s.db) :
    Raced key s (.call i (.insert .none jobId now)) t := by
  have hbefore : inserts key c = decide (req.idempotencyKey = key) := inserts_of_insert hpoint
  have hafter : inserts key (c.failed req) = false := inserts_of_none Call.inserting_failed
  have htold := h.answered Call.answers_failed
  by_cases hkey : req.idempotencyKey = key
  · subst hkey
    obtain ⟨row, hrow⟩ := byKey_of_refused hnot hfresh
    have hpending := h.pending_pred (by simpa using hbefore) hafter
    rw [if_pos rfl] at htold
    refine ⟨?_, fun _ => by omega, nofun⟩
    rw [raceOf, raceOf, hdb, holder_of_byKey hrow, hpending, htold]
    exact .lose _ _ _
  · have hpending : pending key t = pending key s :=
      h.pending_eq (by rw [hafter, hbefore, decide_eq_false hkey])
    rw [if_neg hkey] at htold
    exact .quiet (by rw [hdb]) hpending htold rfl

private theorem raced_call {ev : Etl.Submit.Event} {e : Etl.Submit.Effect}
    (hhealthy : Healthy s (.call i ev)) (hc : s.calls[i]? = some c)
    (hstep : Etl.Submit.step s.db c ev = some e) (hcalls : t.calls = s.calls.set i e.call)
    (hdb : t.db = e.db) : Raced key s (.call i ev) t := by
  obtain ⟨n, R, hturn⟩ := turn_of_call key hc hcalls
  obtain ⟨hfault, hfresh⟩ := hhealthy
  cases Etl.Submit.steps_of_step hstep with
  | received b received _ hpoint =>
      have hbefore : inserts key c = false := inserts_of_none (by rw [Call.inserting, hpoint])
      exact .quiet (by rw [hdb])
        (hturn.pending_eq (by rw [hbefore, inserts_of_none Call.inserting_onRecv]))
        (hturn.told_eq Call.answers_onRecv) rfl
  | unanswered req fault now _ hne => exact absurd hfault hne
  | found req row now hpoint hrow => exact raced_found hturn hc hpoint hrow hdb
  | missed req now hpoint hfree => exact raced_missed hturn hc hpoint hfree hdb
  | created req jobId now db hpoint hinsert =>
      exact raced_created hturn hpoint (hinsert.trans (congrArg some hdb.symm))
  | rejected req fault jobId now hpoint hnot =>
      obtain rfl : fault = .none := hfault
      exact raced_rejected hturn hpoint hfresh (hnot rfl) hdb
  | orphaned => cases hfault
  | sent job now hpoint =>
      have hbefore : inserts key c = false := inserts_of_none (by rw [Call.inserting, hpoint])
      exact .quiet (by rw [hdb])
        (hturn.pending_eq (by rw [hbefore, inserts_of_none Call.inserting_sent]))
        (hturn.told_eq Call.answers_sent) rfl

end Calls

def LivesOn (s : State) (a : Act) : Prop := (step s a).all (fun t => t.phase ≠ .down) = true

instance (s : State) (a : Act) : Decidable (LivesOn s a) := inferInstanceAs (Decidable (_ = _))

def Steady (s : State) (a : Act) : Prop := Healthy s a ∧ LivesOn s a

instance (s : State) (a : Act) : Decidable (Steady s a) := inferInstanceAs (Decidable (_ ∧ _))

private theorem raced_work {w : Nat} {inp : Worker.Machine.Input} {job : Worker.ProcessJob.Job}
    {p : Worker.Machine.Point} (hlives : (s.afterWork w job p inp).phase ≠ .down) :
    Raced key s (.work w inp) (s.afterWork w job p inp) := by
  have hsteps := steps_step job inp s.db p
  have hholder : holder key (s.afterWork w job p inp).db = holder key s.db := by
    rw [s.afterWork_db]
    cases hsteps.touches with
    | nothing h => rw [h]
    | row g h => rw [h, holder_updateJob]
    | video v h => rw [holder, insertVideo_jobs h, holder]
  rcases s.afterWork_memory w job p inp with ⟨hcalls, -⟩ | ⟨hdown, -⟩
  · exact .quiet hholder (by rw [pending, hcalls, pending]) (by rw [told, hcalls, told]) rfl
  · exact absurd hdown hlives

private theorem raced_step (hup : s.phase ≠ .down) (hsteady : Steady s a)
    (hstep : step s a = some t) :
    Raced key s a t := by
  obtain ⟨hhealthy, hlives⟩ := hsteady
  have hphase : t.phase ≠ .down := by
    rw [LivesOn, hstep] at hlives
    exact of_decide_eq_true hlives
  cases acts_of_step hstep with
  | submitJob req _ =>
      refine .quiet rfl ?_ ?_ rfl
      · simp [pending, Call.submitJob, inserts, Call.inserting]
      · simp [told, Call.submitJob, toldIn]
  | submitBatch _ =>
      refine .quiet rfl ?_ ?_ rfl
      · simp [pending, Call.submitBatch, inserts, Call.inserting]
      · simp [told, Call.submitBatch, toldIn]
  | call i ev c e hc hcall _ => exact raced_call hhealthy hc hcall rfl rfl
  | send i ev c e job hc hcall _ _ => exact raced_call hhealthy hc hcall rfl rfl
  | receive => exact .quiet rfl rfl rfl rfl
  | work w inp job p _ => exact raced_work hphase
  | shutdown => exact .quiet rfl rfl rfl rfl
  | exit => exact absurd rfl hphase
  | boot n hdown => exact absurd hdown hup

private theorem up_of_steady (hsteady : Steady s a) (hstep : step s a = some t) :
    t.phase ≠ .down := by
  have hlives := hsteady.2
  rw [LivesOn, hstep] at hlives
  exact of_decide_eq_true hlives

private theorem coherent_step (hall : ∀ c ∈ s.calls, Coherent c) (hstep : step s a = some t) :
    ∀ c ∈ t.calls, Coherent c := by
  have hadd : ∀ d, Coherent d → ∀ c ∈ s.calls ++ [d], Coherent c := by
    intro d hd c hc
    rcases List.mem_append.mp hc with hc | hc
    · exact hall c hc
    · obtain rfl := List.mem_singleton.mp hc
      exact hd
  have hset : ∀ i c ev e, s.calls[i]? = some c → Etl.Submit.step s.db c ev = some e →
      ∀ d ∈ s.calls.set i e.call, Coherent d := by
    intro i c ev e hc hcall d hd
    rcases List.mem_or_eq_of_mem_set hd with hd | rfl
    · exact hall d hd
    · exact (hall c (List.mem_of_getElem? hc)).step hcall
  have hnone : ∀ c ∈ ([] : List Call), Coherent c := fun c hc => absurd hc List.not_mem_nil
  cases acts_of_step hstep with
  | submitJob req _ => exact hadd _ (coherent_submitJob req)
  | submitBatch _ => exact hadd _ coherent_submitBatch
  | call i ev c e hc hcall _ => exact hset i c ev e hc hcall
  | send i ev c e job hc hcall _ _ => exact hset i c ev e hc hcall
  | receive => exact hall
  | work w inp job p _ =>
      rcases s.afterWork_memory w job p inp with ⟨hcalls, -⟩ | ⟨-, hcalls⟩
      · rw [hcalls]
        exact hall
      · rw [hcalls]
        exact hnone
  | shutdown => exact hall
  | exit => exact hnone
  | boot => exact hnone

/-- In every reachable state the replies, counters and results of the calls say what
their answers say. -/
theorem coherent_of_reachable (h : Reachable Cold step Anything s) :
    ∀ c ∈ s.calls, Coherent c := by
  refine h.invariant (I := fun s => ∀ c ∈ s.calls, Coherent c) ?_
    fun s a t hall _ hstep => coherent_step hall hstep
  rintro _ ⟨db, rfl⟩ c hc
  exact absurd hc List.not_mem_nil

def booted (db : Db) (n : Nat) : State :=
  { State.cold db with phase := .up, workers := List.replicate n .idle }

/-- No submission looks the key up while another is between its lookup and its INSERT. -/
def LooksUpAlone (key : String) (s : State) (a : Act) : Prop :=
  looksUp key s a = true → pending key s = 0

instance (key : String) (s : State) (a : Act) : Decidable (LooksUpAlone key s a) :=
  inferInstanceAs (Decidable (_ → _))

theorem reachable_booted (db : Db) (n : Nat) : Reachable Cold step Anything (booted db n) := by
  have hboot : step (State.cold db) (.boot n) = some (booted db n) := rfl
  exact Reachable.next ⟨State.cold db, ⟨db, rfl⟩, .refl⟩ trivial hboot

private theorem orderly_booted {db : Db} (n : Nat) (h : db.jobs.byKey key = none) :
    Orderly (raceOf key (booted db n)) := by
  refine .inl ⟨?_, Nat.zero_le 1, rfl⟩
  change holder key db = none
  rw [holder, h]
  rfl

private theorem taken_booted {db : Db} (n : Nat) {row : JobRow} (h : db.jobs.byKey key = some row) :
    Taken (raceOf key (booted db n)) := by
  refine ⟨rfl, row.jobId, ?_, fun v hv => absurd hv (Multiset.notMem_zero v)⟩
  change holder key db = some row.jobId
  rw [holder, h]
  rfl

private theorem orderly_step (hup : s.phase ≠ .down) (horderly : Orderly (raceOf key s))
    (hsteady : Steady s a) (halone : LooksUpAlone key s a) (hstep : step s a = some t) :
    Orderly (raceOf key t) := by
  have hraced : Raced key s a t := raced_step hup hsteady hstep
  refine horderly.step hraced.steps ?_
  intro hlt
  cases hlooks : looksUp key s a with
  | true => exact halone hlooks
  | false => exact absurd hlt (not_lt.mpr (hraced.other hlooks))

private theorem spoilt_step (hup : s.phase ≠ .down) (horderly : Orderly (raceOf key s))
    (hsteady : Steady s a) (hbehind : ¬ LooksUpAlone key s a) (hstep : step s a = some t) :
    Spoilt (raceOf key t) := by
  have hraced : Raced key s a t := raced_step hup hsteady hstep
  obtain ⟨hlooks, hpending⟩ := Classical.not_imp.mp hbehind
  have hnone : holder key s.db = none := by
    rcases horderly with ⟨hnone, -⟩ | ⟨hzero, -⟩
    · exact hnone
    · exact absurd hzero hpending
  exact .of_miss horderly hraced.steps (hraced.miss hlooks hnone) hpending

private theorem pending_of_returned (h : ∀ c ∈ s.calls, c.hasReturned = true) :
    pending key s = 0 := by
  refine List.countP_eq_zero.mpr ?_
  intro c hc hinserts
  have hreturned := h c hc
  unfold inserts Call.inserting at hinserts
  unfold Call.hasReturned at hreturned
  split at hreturned
  · rename_i reply hpoint
    rw [hpoint] at hinserts
    cases hinserts
  · cases hreturned

/-- With a healthy database, the submissions of a key that no row had agree on the
one row that has it, one of them as its maker, exactly when each looked the key up
while no other was between its own lookup and INSERT. The callers are told just that: every
reply is the one for the answers of its call. -/
theorem sameKey_agree_iff {db : Db} {n : Nat} {acts : List Act}
    (hsteady : Meets step Steady (booted db n) acts) (hrun : run step (booted db n) acts = some t)
    (hdone : ∀ c ∈ t.calls, c.hasReturned = true) (hsome : told key t ≠ 0) :
    (Agreed (raceOf key t) ↔
      db.jobs.byKey key = none ∧ Meets step (LooksUpAlone key) (booted db n) acts) ∧
      ∀ c ∈ t.calls, Tells c := by
  have htells : ∀ c ∈ t.calls, Tells c := by
    intro c hc
    have hpath := path_of_run hrun (meets_true (booted db n) acts)
    exact (coherent_of_reachable ((reachable_booted db n).path hpath) c hc).tells (hdone c hc)
  refine ⟨?_, htells⟩
  have hpending : (raceOf key t).pending = 0 := pending_of_returned hdone
  have hup : (booted db n).phase ≠ .down := by
    intro h
    cases h
  cases hrow : db.jobs.byKey key with
  | some row =>
      have htaken : t.phase ≠ .down ∧ Taken (raceOf key t) := by
        refine run_invariant (I := fun s => s.phase ≠ .down ∧ Taken (raceOf key s)) ?_
          ⟨hup, taken_booted n hrow⟩ hsteady hrun
        rintro s a u ⟨hs, htaken⟩ hok hstep
        exact ⟨up_of_steady hok hstep, htaken.step (raced_step hs hok hstep).steps⟩
      exact ⟨fun h => absurd h htaken.2.not_agreed, fun h => by cases h.1⟩
  | none =>
      have horderly := orderly_booted n hrow
      refine ⟨fun hagreed => ⟨rfl, ?_⟩, fun ⟨_, halone⟩ => ?_⟩
      · by_contra hmiss
        have hspoilt : t.phase ≠ .down ∧ Spoilt (raceOf key t) := by
          refine spoilt_of_not_meets (I := fun s => s.phase ≠ .down ∧ Orderly (raceOf key s))
            (B := fun s => s.phase ≠ .down ∧ Spoilt (raceOf key s)) ?_ ?_ ?_ ⟨hup, horderly⟩
            hsteady hrun hmiss
          · rintro s a u ⟨hs, hord⟩ hok hcond hstep
            exact ⟨up_of_steady hok hstep, orderly_step hs hord hok hcond hstep⟩
          · rintro s a u ⟨hs, hord⟩ hok hcond hstep
            exact ⟨up_of_steady hok hstep, spoilt_step hs hord hok hcond hstep⟩
          · rintro s a u ⟨hs, hbad⟩ hok hstep
            exact ⟨up_of_steady hok hstep, hbad.step (raced_step hs hok hstep).steps⟩
        exact hspoilt.2.not_agreed hpending hagreed
      · have hfinal : t.phase ≠ .down ∧ Orderly (raceOf key t) := by
          have hboth := meets_and hsteady halone
          refine run_invariant (I := fun s => s.phase ≠ .down ∧ Orderly (raceOf key s)) ?_
            ⟨hup, horderly⟩ hboth hrun
          rintro s a u ⟨hs, hord⟩ ⟨hok, hcond⟩ hstep
          exact ⟨up_of_steady hok hstep, orderly_step hs hord hok hcond hstep⟩
        exact hfinal.2.agreed hsome

def overlap : List Act :=
  [.submitJob sampleRequest, .submitJob sampleRequest, .call 0 (.lookup .none Time.zero),
    .call 1 (.lookup .none Time.zero), .call 0 (.insert .none "job-1" Time.zero),
    .call 1 (.insert .none "job-2" Time.zero), .call 0 (.send Time.zero)]

def overlapped : State := (run step (booted .empty numWorkers) overlap).getD (State.cold .empty)

private theorem run_overlap : run step (booted .empty numWorkers) overlap = some overlapped := by
  rfl

theorem sameKey_agree_iff_overlap : ¬ Agreed (raceOf sampleRequest.idempotencyKey overlapped) := by
  have hsteady : Meets step Steady (booted .empty numWorkers) overlap := by decide
  rw [(sameKey_agree_iff hsteady run_overlap (by decide) (by decide)).1]
  decide

/-- The call that comes second is told of an error, not of the row that has its key. -/
theorem overlapped_disagrees :
    Meets step Steady (booted .empty numWorkers) overlap ∧
      run step (booted .empty numWorkers) overlap = some overlapped ∧
      (∀ c ∈ overlapped.calls, c.hasReturned = true) ∧
      (overlapped.calls.map (·.point))[1]? = some (.returned .error) ∧
      holder sampleRequest.idempotencyKey overlapped.db = some "job-1" ∧
      ¬ Agreed (raceOf sampleRequest.idempotencyKey overlapped) := by
  refine ⟨by decide, run_overlap, by decide, by decide, by decide, ?_⟩
  exact Spoilt.not_agreed (.inl (by decide)) (by decide)

end TrendingPipeline.System.SameKey
