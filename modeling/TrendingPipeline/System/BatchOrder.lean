/- Unit: TrendingPipeline/System/BatchOrder
   source: backend/etl/server.go, backend/worker/worker.go
   digest: The workers take up the jobs of a batch in the order of its requests. -/

import TrendingPipeline.System.Backlog

/-!
SubmitBatch puts one job on the channel before it receives the next request, and every id
is fresh. So whatever other calls and the workers do in between, the jobs that reach a
worker come in the order in which the batch asked for them.
-/

set_option autoImplicit false
set_option relaxedAutoImplicit false

namespace TrendingPipeline.System.BatchOrder

open TrendingPipeline.Base.Calendar (Time)
open TrendingPipeline.Base.Runs
open TrendingPipeline.Base.Tallies
open TrendingPipeline.Etl.Replies (resultOf tally)
open TrendingPipeline.Etl.Submit (Answer Call Effect Event existsMessage processedMessage)
open TrendingPipeline.Proto.Messages (BatchResponse JobRequest)
open TrendingPipeline.Store.Tables (Db)
open TrendingPipeline.System.Backlog
open TrendingPipeline.System.Custody (balanced_of_reachable)
open TrendingPipeline.System.ExactlyOnce (sampleRequest)
open TrendingPipeline.System.SameKey (booted coherent_of_reachable reachable_booted)
open TrendingPipeline.System.Step
open TrendingPipeline.Worker.ProcessJob (Job)

def createdId : JobRequest × Answer → Option String
  | (_, .created jobId) => some jobId
  | _ => none

/-- The rows a call has made, in the order of its requests. -/
def createdIds (c : Call) : List String := c.answers.filterMap createdId

def accepted (b : BatchResponse) : List String :=
  (b.results.filter fun r => r.message = processedMessage).map (·.jobId)

def ofCall (c : Call) (jobs : List Job) : List String :=
  (jobs.map (·.id)).filter fun id => id ∈ createdIds c

def inHand (c : Call) : List String := c.holding.toList.map (·.id)

private theorem ofCall_append (c : Call) (jobs jobs' : List Job) :
    ofCall c (jobs ++ jobs') = ofCall c jobs ++ ofCall c jobs' := by
  rw [ofCall, List.map_append, List.filter_append]
  rfl

private theorem ofCall_congr {c d : Call} (h : createdIds c = createdIds d) (jobs : List Job) :
    ofCall c jobs = ofCall d jobs := by
  rw [ofCall, ofCall, h]

private theorem accepted_tally (c : Call) : accepted (tally c.answers) = createdIds c := by
  have hdiffer : existsMessage ≠ processedMessage := by decide
  unfold createdIds accepted tally
  induction c.answers with
  | nil => rfl
  | cons x answers ih =>
      obtain ⟨req, answer⟩ := x
      cases answer with
      | failed => exact ih
      | existing jobId =>
          simp only [List.filterMap_cons, resultOf, createdId, List.filter_cons, hdiffer,
            decide_false, Bool.false_eq_true, if_false]
          exact ih
      | created jobId =>
          simp only [List.filterMap_cons, resultOf, createdId, List.filter_cons, decide_true,
            if_true, List.map_cons]
          exact congrArg (jobId :: ·) ih

/-- What a step of a call does to the rows it has made and to its hand. -/
inductive Serves (db : Db) (c : Call) (e : Effect) : Prop
  | other : createdIds e.call = createdIds c → c.holding = none → e.call.holding = none →
      e.created = none → e.sent = none → Serves db c e
  | created (job : Job) : createdIds e.call = createdIds c ++ [job.id] → c.holding = none →
      e.call.holding = some job → e.created = some job.id → e.sent = none →
      job.id ∉ db.jobs.rows.map (·.jobId) → Serves db c e
  | sent (job : Job) : createdIds e.call = createdIds c → c.holding = some job →
      e.call.holding = none → e.created = none → e.sent = some job → Serves db c e

private theorem createdIds_append {c d : Call} {x : JobRequest × Answer}
    (h : d.answers = c.answers ++ [x]) :
    createdIds d = createdIds c ++ (createdId x).toList := by
  rw [createdIds, h, List.filterMap_append, createdIds]
  cases hx : createdId x with
  | none => rw [List.filterMap_cons_none hx]; rfl
  | some id => rw [List.filterMap_cons_some hx]; rfl

private theorem serves_of_step {db : Db} {c : Call} {ev : Event} {e : Effect}
    (h : Etl.Submit.step db c ev = some e) : Serves db c e := by
  have hsame : ∀ {d : Call} {x : JobRequest × Answer}, d.answers = c.answers ++ [x] →
      createdId x = none → createdIds d = createdIds c := by
    intro d x hanswers hx
    rw [createdIds_append hanswers, hx]
    exact List.append_nil _
  have hhand : ∀ p, c.point = p → c.holding = Call.holding { c with point := p } := by
    rintro p rfl
    rfl
  cases Etl.Submit.steps_of_step h with
  | received b received _ hpoint =>
      have hanswers : (Etl.Submit.onRecv c b received).answers = c.answers := Call.answers_onRecv
      exact .other (congrArg (List.filterMap createdId) hanswers) (hhand _ hpoint)
        Call.holding_onRecv rfl rfl
  | unanswered req _ _ hpoint _ =>
      exact .other (hsame Call.answers_failed rfl) (hhand _ hpoint) Call.holding_failed rfl rfl
  | found req row _ hpoint _ =>
      exact .other (hsame Call.answers_existing rfl) (hhand _ hpoint) Call.holding_existing rfl rfl
  | missed req _ hpoint _ => exact .other rfl (hhand _ hpoint) rfl rfl rfl
  | created req jobId now db' hpoint hinsert =>
      exact .created (Etl.Submit.enqueued jobId req) (createdIds_append Call.answers_created)
        (hhand _ hpoint) Call.holding_created rfl rfl
        (Store.Statements.insertJob_fresh hinsert)
  | rejected req _ _ _ hpoint _ =>
      exact .other (hsame Call.answers_failed rfl) (hhand _ hpoint) Call.holding_failed rfl rfl
  | orphaned req _ _ _ hpoint _ =>
      exact .other (hsame Call.answers_failed rfl) (hhand _ hpoint) Call.holding_failed rfl rfl
  | sent job _ hpoint =>
      exact .sent job (congrArg (List.filterMap createdId) Call.answers_sent) (hhand _ hpoint)
        Call.holding_sent rfl rfl

/-- The calls of a process against the jobs it has put on the channel so far. -/
structure InOrder (jobs : List Job) (s : State) : Prop where
  known : ∀ job ∈ jobs, job.id ∈ s.inserted
  made : ∀ c ∈ s.calls, ∀ id ∈ createdIds c, id ∈ s.inserted
  apart : ∀ (i j : Nat) (c d : Call), i ≠ j → s.calls[i]? = some c → s.calls[j]? = some d →
    ∀ id ∈ createdIds c, id ∉ createdIds d
  order : ∀ c ∈ s.calls, ofCall c jobs ++ inHand c = createdIds c

variable {jobs : List Job} {s t : State} {a : Act}

private theorem InOrder.of_same (h : InOrder jobs s) (hcalls : t.calls = s.calls)
    (hinserted : t.inserted = s.inserted) : InOrder jobs t where
  known := hinserted ▸ h.known
  made := by rw [hcalls, hinserted]; exact h.made
  apart := by rw [hcalls]; exact h.apart
  order := by rw [hcalls]; exact h.order

private theorem InOrder.append (h : InOrder jobs s) {d : Call} (hanswers : d.answers = [])
    (hhand : d.holding = none) (hcalls : t.calls = s.calls ++ [d])
    (hinserted : t.inserted = s.inserted) : InOrder jobs t := by
  have hnothing : createdIds d = [] := by rw [createdIds, hanswers]; rfl
  have hnew : ∀ {i : Nat} {c : Call}, (s.calls ++ [d])[i]? = some c →
      s.calls[i]? = some c ∨ createdIds c = [] := by
    intro i c hc
    rcases Nat.lt_or_ge i s.calls.length with hlt | hge
    · exact .inl (by rwa [List.getElem?_append_left hlt] at hc)
    · rw [List.getElem?_append_right hge] at hc
      obtain rfl := List.mem_singleton.mp (List.mem_of_getElem? hc)
      exact .inr hnothing
  constructor
  · exact hinserted ▸ h.known
  · intro c hc id hid
    rw [hcalls] at hc
    rw [hinserted]
    rcases List.mem_append.mp hc with hc | hc
    · exact h.made c hc id hid
    · rw [List.mem_singleton.mp hc, hnothing] at hid
      cases hid
  · intro i j c e hne hc he id hid hother
    rw [hcalls] at hc he
    rcases hnew hc with hc | hempty
    · rcases hnew he with he | hempty
      · exact h.apart i j c e hne hc he id hid hother
      · rw [hempty] at hother
        cases hother
    · rw [hempty] at hid
      cases hid
  · intro c hc
    rw [hcalls] at hc
    rcases List.mem_append.mp hc with hc | hc
    · exact h.order c hc
    · obtain rfl := List.mem_singleton.mp hc
      rw [ofCall, hnothing, inHand, hhand]
      exact (List.append_nil _).trans (List.filter_eq_nil_iff.mpr (by simp))

/-- One call goes on. The ids it makes are new ones, and no other call has made the job
that it sends. -/
private theorem InOrder.set (h : InOrder jobs s) {i : Nat} {c d : Call} (made : List String)
    (sent : List Job) (hc : s.calls[i]? = some c) (hmade : createdIds d = createdIds c ++ made)
    (hfresh : ∀ id ∈ made, id ∉ s.inserted) (hsent : ∀ job ∈ sent, job.id ∈ createdIds c)
    (horder : ofCall d (jobs ++ sent) ++ inHand d = createdIds d)
    (hcalls : t.calls = s.calls.set i d) (hinserted : t.inserted = made ++ s.inserted) :
    InOrder (jobs ++ sent) t := by
  have hmem := List.mem_of_getElem? hc
  have hget : ∀ {j : Nat} {x : Call}, (s.calls.set i d)[j]? = some x →
      j = i ∧ x = d ∨ j ≠ i ∧ s.calls[j]? = some x := by
    intro j x hx
    by_cases hj : j = i
    · subst hj
      rw [List.getElem?_set_self (List.getElem?_eq_some_iff.mp hc).1] at hx
      exact .inl ⟨rfl, (Option.some.inj hx).symm⟩
    · exact .inr ⟨hj, by rwa [List.getElem?_set_ne (Ne.symm hj)] at hx⟩
  have hfar : ∀ {j : Nat} {x : Call}, j ≠ i → s.calls[j]? = some x →
      ∀ id ∈ createdIds d, id ∉ createdIds x := by
    intro j x hj hx id hid hother
    rw [hmade, List.mem_append] at hid
    rcases hid with hid | hid
    · exact h.apart i j c x hj.symm hc hx id hid hother
    · exact hfresh id hid (h.made x (List.mem_of_getElem? hx) id hother)
  constructor
  · intro job hjob
    rw [hinserted, List.mem_append]
    rcases List.mem_append.mp hjob with hjob | hjob
    · exact .inr (h.known job hjob)
    · exact .inr (h.made c hmem job.id (hsent job hjob))
  · intro x hx id hid
    rw [hinserted, List.mem_append]
    rw [hcalls] at hx
    rcases List.mem_or_eq_of_mem_set hx with hx | rfl
    · exact .inr (h.made x hx id hid)
    · rw [hmade, List.mem_append] at hid
      exact hid.symm.imp_right (h.made c hmem id)
  · intro j k x y hne hx hy id hid
    rw [hcalls] at hx hy
    rcases hget hx with ⟨rfl, rfl⟩ | ⟨hj, hjx⟩
    · rcases hget hy with ⟨rfl, rfl⟩ | ⟨hk, hky⟩
      · exact absurd rfl hne
      · exact hfar hk hky id hid
    · rcases hget hy with ⟨rfl, rfl⟩ | ⟨hk, hky⟩
      · exact fun hother => hfar hj hjx id hother hid
      · exact h.apart j k x y hne hjx hky id hid
  · intro x hx
    rw [hcalls] at hx
    obtain ⟨j, hj⟩ := List.mem_iff_getElem?.mp hx
    rcases hget hj with ⟨-, rfl⟩ | ⟨hne, hold⟩
    · exact horder
    · -- what the call sends is not of any other call
      have hnone : ofCall x sent = [] := by
        refine List.filter_eq_nil_iff.mpr fun id hid hother => ?_
        obtain ⟨job, hjob, rfl⟩ := List.mem_map.mp hid
        exact h.apart i j c x hne.symm hc hold job.id (hsent job hjob) (of_decide_eq_true hother)
      rw [ofCall_append, hnone, List.append_nil]
      exact h.order x (List.mem_of_getElem? hold)

private theorem InOrder.serves (h : InOrder jobs s) {i : Nat} {c : Call} {e : Effect}
    (hpresent : ∀ id ∈ s.inserted, id ∈ s.db.jobs.rows.map (·.jobId))
    (hc : s.calls[i]? = some c) (hserves : Serves s.db c e)
    (hcalls : t.calls = s.calls.set i e.call)
    (hinserted : t.inserted = e.created.toList ++ s.inserted) :
    InOrder (jobs ++ e.sent.toList) t := by
  have horder := h.order c (List.mem_of_getElem? hc)
  cases hserves with
  | other hsame hbefore hafter hcreated hsent =>
      rw [hcreated] at hinserted
      rw [hsent]
      refine h.set [] _ hc (by rw [hsame, List.append_nil]) (by simp) (by simp) ?_ hcalls
        hinserted
      rw [inHand, hbefore] at horder
      rw [Option.toList_none, List.append_nil, ofCall_congr hsame, inHand, hafter, hsame]
      exact horder
  | created job hmade hbefore hafter hcreated hsent hfresh =>
      rw [hcreated] at hinserted
      rw [hsent]
      have hnew : job.id ∉ s.inserted := fun hid => hfresh (hpresent job.id hid)
      refine h.set _ _ hc hmade ?_ (by simp) ?_ hcalls hinserted
      · intro id hid
        rwa [List.mem_singleton.mp hid]
      · -- no job on the channel has the new id
        have hsame : ofCall e.call jobs = ofCall c jobs := by
          refine List.filter_congr fun id hid => ?_
          obtain ⟨old, hold, rfl⟩ := List.mem_map.mp hid
          have hne : old.id ≠ job.id := fun heq => hnew (heq ▸ h.known old hold)
          simp only [hmade, List.mem_append, List.mem_singleton, or_iff_left hne]
        rw [inHand, hbefore] at horder
        rw [Option.toList_none, List.append_nil, hsame, inHand, hafter, hmade]
        exact congrArg (· ++ [job.id]) ((List.append_nil _).symm.trans horder)
  | sent job hsame hbefore hafter hcreated hsent =>
      rw [hcreated] at hinserted
      rw [hsent]
      rw [inHand, hbefore] at horder
      have hown : job.id ∈ createdIds c := by
        rw [← horder]
        exact List.mem_append_right _ (List.mem_singleton.mpr rfl)
      refine h.set [] _ hc (by rw [hsame, List.append_nil]) (by simp) ?_ ?_ hcalls hinserted
      · intro other hother
        rwa [List.mem_singleton.mp hother]
      · have hone : ofCall c [job] = [job.id] := List.filter_eq_self.mpr (by simpa using hown)
        rw [ofCall_congr hsame, ofCall_append, inHand, hafter, hsame]
        refine (List.append_nil _).trans ?_
        rw [Option.toList_some, hone]
        exact horder

theorem InOrder.next (h : InOrder jobs s) (hreach : Reachable Cold step Anything s)
    (hsame : SameProcess s a) (hstep : step s a = some t) :
    InOrder (jobs ++ (puts s a).toList) t := by
  have hpresent := (balanced_of_reachable hreach).present
  obtain ⟨hstays, hcrash⟩ := hsame
  cases acts_of_step hstep with
  | submitJob req => exact (List.append_nil jobs).symm ▸ h.append rfl rfl rfl rfl
  | submitBatch => exact (List.append_nil jobs).symm ▸ h.append rfl rfl rfl rfl
  | shutdown => exact (List.append_nil jobs).symm ▸ h.of_same rfl rfl
  | receive => exact (List.append_nil jobs).symm ▸ h.of_same rfl rfl
  | exit => cases hstays
  | boot => cases hstays
  | call i ev c e hc hcall hnot =>
      have hputs : puts s (.call i ev) = e.sent := by
        simp only [puts, hc, hcall, Option.bind_some]
      rw [hputs]
      exact h.serves hpresent hc (serves_of_step hcall) rfl rfl
  | send i ev c e job hc hcall _ _ =>
      have hputs : puts s (.call i ev) = e.sent := by
        simp only [puts, hc, hcall, Option.bind_some]
      rw [hputs]
      exact h.serves hpresent hc (serves_of_step hcall) rfl rfl
  | work w inp job p hw =>
      have hmemory : (s.afterWork w job p inp).calls = s.calls ∧
          (s.afterWork w job p inp).inserted = s.inserted := by
        simp only [Crash.crashes, hw, decide_eq_false_iff_not] at hcrash
        unfold State.afterWork
        dsimp only
        split
        · exact ⟨rfl, rfl⟩
        · exact ⟨rfl, rfl⟩
        · exact absurd ‹_› hcrash
      exact (List.append_nil jobs).symm ▸ h.of_same hmemory.1 hmemory.2

private theorem InOrder.along {acts : List Act} (h : InOrder jobs s)
    (hreach : Reachable Cold step Anything s) (hsame : Meets step SameProcess s acts)
    (hrun : run step s acts = some t) : InOrder (jobs ++ trace step puts s acts) t := by
  induction acts generalizing jobs s with
  | nil =>
      obtain rfl := Option.some.inj hrun
      rwa [trace, List.append_nil]
  | cons a acts ih =>
      obtain ⟨m, hstep, hrest⟩ := run_cons_eq_some.mp hrun
      obtain ⟨ha, has⟩ := (meets_cons hstep).mp hsame
      rw [trace_cons hstep, ← List.append_assoc]
      exact ih (h.next hreach ha hstep) (hreach.next trivial hstep) has hrest

/-- In one process, whatever fails and whatever other calls do: the jobs a call has made
are those of its jobs that the workers have taken up, in the order of their taking, then
those in the channel and then the one in its hand. So once a batch is answered, the
accepted entries of the response are the jobs of the batch in the order in which the
workers take them up. -/
theorem batch_order {db : Db} {n : Nat} {acts : List Act}
    (hsame : Meets step SameProcess (booted db n) acts)
    (hrun : run step (booted db n) acts = some t) {c : Call} (hc : c ∈ t.calls) :
    ofCall c (trace step takes (booted db n) acts) ++ ofCall c t.queue ++ inHand c =
        createdIds c ∧
      ∀ b, c.point = .returned (.batch b) →
        ((trace step takes (booted db n) acts ++ t.queue).map (·.id)).filter
          (fun id => id ∈ accepted b) = accepted b := by
  have hreach := reachable_booted db n
  have hstart : InOrder [] (booted db n) := by
    constructor
    · exact fun _ hjob => absurd hjob List.not_mem_nil
    · exact fun _ hcall => absurd hcall List.not_mem_nil
    · intro i j c d _ hcall
      cases hcall
    · exact fun _ hcall => absurd hcall List.not_mem_nil
  have horder := (hstart.along hreach hsame hrun).order c hc
  rw [List.nil_append, channel_fifo hsame hrun] at horder
  refine ⟨by rwa [ofCall_append] at horder, fun b hreturned => ?_⟩
  have hpath := path_of_run hrun (meets_true (booted db n) acts)
  have hcoherent := coherent_of_reachable (hreach.path hpath) c hc
  have hids : accepted b = createdIds c := by
    cases hcoherent.tells (by rw [Call.hasReturned, hreturned]) with
    | submitJob req answer now _ hpoint =>
        cases answer <;> exact absurd (hreturned.symm.trans hpoint) nofun
    | submitBatch _ _ hpoint =>
        obtain rfl := Etl.Submit.Reply.batch.inj
          (Etl.Submit.Point.returned.inj (hreturned.symm.trans hpoint))
        exact accepted_tally c
    | brokenOff _ _ hpoint => exact absurd (hreturned.symm.trans hpoint) nofun
  rw [hids]
  rwa [inHand, Call.holding, hreturned, Option.toList_none, List.map_nil, List.append_nil] at horder

def secondRequest : JobRequest := { sampleRequest with idempotencyKey := "us-2" }
def thirdRequest : JobRequest := { sampleRequest with idempotencyKey := "us-3" }

/-- A batch of two, a call of its own between them, and one of the three taken up. -/
def interleaved : List Act :=
  [.submitBatch, .call 0 (.recv (.request sampleRequest)), .call 0 (.lookup .none Time.zero),
    .submitJob thirdRequest, .call 0 (.insert .none "job-1" Time.zero),
    .call 1 (.lookup .none Time.zero), .call 1 (.insert .none "job-3" Time.zero),
    .call 0 (.send Time.zero), .call 1 (.send Time.zero), .receive 0,
    .call 0 (.recv (.request secondRequest)), .call 0 (.lookup .none Time.zero),
    .call 0 (.insert .none "job-2" Time.zero), .call 0 (.send Time.zero), .call 0 (.recv .eof)]

def answered : State := (run step (booted .empty 1) interleaved).getD (State.cold .empty)

def interleavedReply : BatchResponse where
  totalReceived := 2
  totalAccepted := 2
  totalRejected := 0
  results :=
    [{ jobId := "job-1", state := .queued, idempotencyKey := "us-1", message := processedMessage },
      { jobId := "job-2", state := .queued, idempotencyKey := "us-2",
        message := processedMessage }]

/-- The job of the other call stands between the two of the batch. -/
theorem batch_order_interleaved :
    (trace step takes (booted .empty 1) interleaved ++ answered.queue).map (·.id) =
        ["job-1", "job-3", "job-2"] ∧
      ((trace step takes (booted .empty 1) interleaved ++ answered.queue).map (·.id)).filter
        (fun id => id ∈ accepted interleavedReply) = accepted interleavedReply := by
  have hsome : (run step (booted .empty 1) interleaved).isSome = true := by decide +kernel
  have hrun := run_eq_getD hsome (State.cold .empty)
  have hreturned : (answered.calls.map (·.point))[0]? =
      some (.returned (.batch interleavedReply)) := by decide +kernel
  rw [List.getElem?_map] at hreturned
  obtain ⟨c, hc, hpoint⟩ := Option.map_eq_some_iff.mp hreturned
  exact ⟨by decide +kernel, (batch_order (by decide +kernel) hrun (List.mem_of_getElem? hc)).2 _
    hpoint⟩

end TrendingPipeline.System.BatchOrder
