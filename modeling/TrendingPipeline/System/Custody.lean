/- Unit: TrendingPipeline/System/Custody
   source: none (the purpose of the submit path, the channel and the workers)
   digest: Jobs pass from hand to hand; the process refines this ledger step by step. -/

import TrendingPipeline.Base.Holdings
import TrendingPipeline.System.Step
import TrendingPipeline.Worker.Effects

/-!
A row stays in the table, but the job made from it is a value that a submitter, the channel
or a worker holds. The ledger forgets who holds it and keeps how far it is. Its invariant is
a balance of multisets, inserted is held plus released, with no id inserted twice: a job
can neither get lost nor be in two hands.
-/

set_option autoImplicit false
set_option relaxedAutoImplicit false

namespace TrendingPipeline.System.Custody

open TrendingPipeline.Base.Calendar (Time)
open TrendingPipeline.Base.Holdings
open TrendingPipeline.Base.Runs (Reachable)
open TrendingPipeline.Proto.Messages (JobRequest)
open TrendingPipeline.Store.Tables (Db)
open TrendingPipeline.Store.Statements (Fault insertJob insertJob_fresh insertJob_ids)
open TrendingPipeline.Etl.Submit (Call enqueued enqueued_id)
open TrendingPipeline.Worker.ProcessJob (Job)
open TrendingPipeline.Worker.Machine (Input Point)
open TrendingPipeline.Worker.Effects (Steps steps_step)
open TrendingPipeline.System.Step (Act Anything Clean Cold State WorkerState
  acts_of_step recordFetch step)

/-- Where a job is: with its submitter, in the channel, or with a worker. -/
inductive Stage
  | hand
  | queued
  | working (p : Point)
  deriving DecidableEq

/-- Who holds a job does not matter here, only how far the job is. -/
structure Ledger where
  db : Db
  held : Multiset (Job × Stage)
  inserted : List String
  released : List String
  known : List String
  fetched : String → Nat

/-- One step of the ledger, when `ok` tells which faults statements may have. -/
inductive Moves (ok : Fault → Prop) (l : Ledger) : Ledger → Prop
  | quiet : Moves ok l l
  | create (jobId : String) (req : JobRequest) (now : Time) (db : Db) :
      insertJob l.db now jobId req = some db →
      Moves ok l
        { l with
          db := db
          held := (enqueued jobId req, .hand) ::ₘ l.held
          inserted := jobId :: l.inserted }
  | orphan (jobId : String) (req : JobRequest) (now : Time) (db : Db) :
      ok .applied → insertJob l.db now jobId req = some db → Moves ok l { l with db := db }
  | enqueue (job : Job) (rest : Multiset (Job × Stage)) :
      l.held = (job, .hand) ::ₘ rest → Moves ok l { l with held := (job, .queued) ::ₘ rest }
  | receive (job : Job) (rest : Multiset (Job × Stage)) :
      l.held = (job, .queued) ::ₘ rest →
      Moves ok l { l with held := (job, .working .start) ::ₘ rest }
  | work (job : Job) (p q : Point) (inp : Input) (db : Db) (rest : Multiset (Job × Stage)) :
      l.held = (job, .working p) ::ₘ rest → ok inp.fault → Steps job inp l.db p (.goto q) db →
      Moves ok l
        { l with
          db := db
          held := (job, .working q) ::ₘ rest
          fetched := recordFetch l.fetched job p (.goto q) }
  | release (job : Job) (p : Point) (inp : Input) (db : Db) (rest : Multiset (Job × Stage)) :
      l.held = (job, .working p) ::ₘ rest → ok inp.fault → Steps job inp l.db p .returned db →
      Moves ok l { l with db := db, held := rest, released := job.id :: l.released }
  | halt :
      Moves ok l
        { l with
          held := 0, inserted := [], released := [], known := l.db.jobs.rows.map (·.jobId) }

def callHolds (c : Call) : Option (Job × Stage) := c.holding.map fun job => (job, .hand)

def queueHolds (job : Job) : Option (Job × Stage) := some (job, .queued)

def workerHolds : WorkerState → Option (Job × Stage)
  | .idle => none
  | .busy job p => some (job, .working p)

def ofState (s : State) : Ledger where
  db := s.db
  held := holdings callHolds s.calls + holdings queueHolds s.queue +
    holdings workerHolds s.workers
  inserted := s.inserted
  released := s.released.map Prod.snd
  known := s.known
  fetched := s.fetched

private theorem ofState_halt (s : State) :
    ofState s.halt =
      { ofState s with
        held := 0, inserted := [], released := [], known := s.db.jobs.rows.map (·.jobId) } :=
  rfl

variable {ok : Fault → Prop} {s t : State}

private theorem moves_halt (s : State) : Moves ok (ofState s) (ofState s.halt) :=
  ofState_halt s ▸ .halt

private theorem holdings_queue_snoc (queue : List Job) (job : Job) :
    holdings queueHolds (queue ++ [job]) = (job, .queued) ::ₘ holdings queueHolds queue := by
  rw [holdings_append, add_comm]
  rfl

private theorem holdings_queue_cons (queue : List Job) (job : Job) :
    holdings queueHolds (job :: queue) = (job, .queued) ::ₘ holdings queueHolds queue :=
  rfl

section Calls

variable {i : Nat} {c d : Call}

private theorem callHolds_none (h : c.holding = none) : callHolds c = none := by
  rw [callHolds, h]
  rfl

private theorem callHolds_some {job : Job} (h : c.holding = some job) :
    callHolds c = some (job, .hand) := by
  rw [callHolds, h]
  rfl

private theorem ofState_emptyHanded (hc : s.calls[i]? = some c) (hbefore : c.holding = none)
    (hafter : d.holding = none) (db : Db) :
    ofState { s with db := db, calls := s.calls.set i d } = { ofState s with db := db } := by
  have hsame : callHolds d = callHolds c := by
    rw [callHolds_none hbefore, callHolds_none hafter]
  simp only [ofState, holdings_set_same hc hsame]

private theorem moves_call {ev : Etl.Submit.Event} {e : Etl.Submit.Effect}
    (hc : s.calls[i]? = some c)
    (hstep : Etl.Submit.step s.db c ev = some e) (hnot : e.sent = none)
    (hok : ok (Act.fault (.call i ev))) :
    Moves ok (ofState s)
      (ofState
        { s with
          db := e.db, calls := s.calls.set i e.call
          inserted := e.created.toList ++ s.inserted }) := by
  have hquiet : ∀ d : Call, c.holding = none → d.holding = none →
      Moves ok (ofState s) (ofState { s with calls := s.calls.set i d }) := by
    intro d hbefore hd
    have hsame := ofState_emptyHanded hc hbefore hd s.db
    rw [show ofState { s with calls := s.calls.set i d } = ofState s from hsame]
    exact .quiet
  have hnone : ∀ q, c.point = q → (∀ job, q ≠ .send job) → c.holding = none := by
    intro q hq hne
    unfold Call.holding
    split
    · exact absurd (hq.symm.trans ‹_›) (hne _)
    · rfl
  cases Etl.Submit.steps_of_step hstep with
  | received b received _ hpoint => exact hquiet _ (hnone _ hpoint (by simp)) Call.holding_onRecv
  | unanswered req fault now hpoint _ =>
      exact hquiet _ (hnone _ hpoint (by simp)) Call.holding_failed
  | found req row now hpoint _ => exact hquiet _ (hnone _ hpoint (by simp)) Call.holding_existing
  | missed req now hpoint _ => exact hquiet _ (hnone _ hpoint (by simp)) rfl
  | rejected req fault jobId now hpoint _ =>
      exact hquiet _ (hnone _ hpoint (by simp)) Call.holding_failed
  | orphaned req jobId now db hpoint hinsert =>
      have hafter : (c.failed req).holding = none := Call.holding_failed
      have hsame := ofState_emptyHanded hc (hnone _ hpoint (by simp)) hafter db
      have hmoves : Moves ok (ofState s) { ofState s with db := db } :=
        .orphan jobId req now db hok hinsert
      exact hsame ▸ hmoves
  | created req jobId now db hpoint hinsert =>
      have hafter : (c.created req jobId).holding = some (enqueued jobId req) :=
        Call.holding_created
      have htake := holdings_set_take hc (callHolds_none (hnone _ hpoint (by simp)))
        (callHolds_some hafter)
      have hmoves : Moves ok (ofState s) _ := .create jobId req now db hinsert
      convert hmoves using 1
      simp only [ofState, htake, Multiset.cons_add]
      rfl
  | sent job now hpoint => cases hnot

private theorem moves_send {ev : Etl.Submit.Event} {e : Etl.Submit.Effect} {job : Job}
    (hc : s.calls[i]? = some c) (hstep : Etl.Submit.step s.db c ev = some e)
    (hsent : e.sent = some job) :
    Moves ok (ofState s)
      (ofState
        { s with
          db := e.db, calls := s.calls.set i e.call
          inserted := e.created.toList ++ s.inserted, queue := s.queue ++ [job] }) := by
  cases Etl.Submit.steps_of_step hstep with
  | sent job' now hpoint =>
      obtain rfl : job' = job := Option.some.inj hsent
      have hbefore : c.holding = some job' := by rw [Call.holding, hpoint]
      have hafter : (c.sent job' now).holding = none := Call.holding_sent
      have hdrop := holdings_set_drop hc (callHolds_some hbefore) (callHolds_none hafter)
      have hheld : (ofState s).held = (job', .hand) ::ₘ
          (holdings callHolds (s.calls.set i (c.sent job' now)) + holdings queueHolds s.queue +
            holdings workerHolds s.workers) := by
        simp only [ofState, hdrop, Multiset.cons_add]
      have hmoves : Moves ok (ofState s) _ := .enqueue job' _ hheld
      convert hmoves using 1
      simp only [ofState, holdings_queue_snoc, Multiset.add_cons, Multiset.cons_add]
      rfl
  | received => cases hsent
  | unanswered => cases hsent
  | found => cases hsent
  | missed => cases hsent
  | created => cases hsent
  | rejected => cases hsent
  | orphaned => cases hsent

end Calls

private theorem moves_receive {w : Nat} {job : Job} {rest : List Job}
    (hw : s.workers[w]? = some .idle) (hqueue : s.queue = job :: rest) :
    Moves ok (ofState s)
      (ofState { s with queue := rest, workers := s.workers.set w (.busy job .start) }) := by
  have htake : holdings workerHolds (s.workers.set w (.busy job .start)) =
      (job, .working .start) ::ₘ holdings workerHolds s.workers :=
    holdings_set_take hw rfl rfl
  have hheld : (ofState s).held = (job, .queued) ::ₘ
      (holdings callHolds s.calls + holdings queueHolds rest + holdings workerHolds s.workers) := by
    simp only [ofState, hqueue, holdings_queue_cons, Multiset.add_cons, Multiset.cons_add]
  have hmoves : Moves ok (ofState s) _ := .receive job _ hheld
  convert hmoves using 1
  simp only [ofState, htake, Multiset.add_cons]

private theorem moves_work {w : Nat} {job : Job} {p : Point} {inp : Input}
    (hw : s.workers[w]? = some (.busy job p)) (hok : ok inp.fault) :
    Moves ok (ofState s) (ofState (s.afterWork w job p inp)) := by
  have hsteps := steps_step job inp s.db p
  simp only [State.afterWork]
  generalize Worker.Machine.step job inp s.db p = r at hsteps
  obtain ⟨next, db⟩ := r
  cases next with
  | goto q =>
      obtain ⟨rest, hold, hnew⟩ := holdings_set_swap (f := workerHolds) hw
        (y := .busy job q) rfl rfl
      have hheld : (ofState s).held = (job, .working p) ::ₘ
          (holdings callHolds s.calls + holdings queueHolds s.queue + rest) := by
        simp only [ofState, hold, Multiset.add_cons]
      have hmoves : Moves ok (ofState s) _ := .work job p q inp db _ hheld hok hsteps
      convert hmoves using 1
      simp only [ofState, hnew, Multiset.add_cons]
  | returned =>
      have hdrop := holdings_set_drop (f := workerHolds) hw (y := .idle) rfl rfl
      have hheld : (ofState s).held = (job, .working p) ::ₘ
          (holdings callHolds s.calls + holdings queueHolds s.queue +
            holdings workerHolds (s.workers.set w .idle)) := by
        simp only [ofState, hdrop, Multiset.add_cons]
      exact .release job p inp db _ hheld hok hsteps
  | panicked =>
      cases hsteps
      exact moves_halt s

theorem moves_step {a : Act} (hok : ok a.fault) (h : step s a = some t) :
    Moves ok (ofState s) (ofState t) := by
  cases acts_of_step h with
  | submitJob req _ =>
      have hsame : holdings callHolds (s.calls ++ [Call.submitJob req]) =
          holdings callHolds s.calls := holdings_append_none rfl
      simp only [ofState, hsame]
      exact .quiet
  | submitBatch _ =>
      have hsame : holdings callHolds (s.calls ++ [Call.submitBatch]) =
          holdings callHolds s.calls := holdings_append_none rfl
      simp only [ofState, hsame]
      exact .quiet
  | call i ev c e hc hstep hnot => exact moves_call hc hstep hnot hok
  | send i ev c e job hc hstep hsent _ => exact moves_send hc hstep hsent
  | receive w job rest hw hqueue => exact moves_receive hw hqueue
  | work w inp job p hw => exact moves_work hw hok
  | shutdown _ => exact .quiet
  | exit _ _ => exact moves_halt s
  | boot n _ =>
      have hidle : holdings workerHolds (List.replicate n .idle) = 0 :=
        holdings_eq_zero fun x hx => by rw [List.eq_of_mem_replicate hx]; rfl
      convert moves_halt s using 1
      simp only [ofState, hidle]
      rfl

theorem moves_any {a : Act} (h : step s a = some t) :
    Moves (fun _ => True) (ofState s) (ofState t) := moves_step trivial h

def Ledger.ids (l : Ledger) : List String := l.db.jobs.rows.map (·.jobId)

def Ledger.heldIds (l : Ledger) : Multiset String := l.held.map fun x => x.1.id

/-- Every id InsertJob returned is held by someone or was released, just once. -/
structure Balanced (l : Ledger) : Prop where
  balance : l.heldIds + l.released = l.inserted
  nodup : l.inserted.Nodup
  present : ∀ id ∈ l.inserted, id ∈ l.ids
  apart : ∀ id ∈ l.inserted, id ∉ l.known
  before : ∀ id ∈ l.known, id ∈ l.ids

def Accounted (l : Ledger) : Prop := ∀ id ∈ l.ids, id ∈ l.known ∨ id ∈ l.inserted

private theorem Balanced.pass {l : Ledger} (h : Balanced l) {job : Job} {a b : Stage}
    {rest : Multiset (Job × Stage)} (hheld : l.held = (job, a) ::ₘ rest) {db : Db}
    (hids : db.jobs.rows.map (·.jobId) = l.ids) (fetched : String → Nat) :
    Balanced { l with db := db, held := (job, b) ::ₘ rest, fetched := fetched } := by
  have hsame : Ledger.heldIds { l with db := db, held := (job, b) ::ₘ rest, fetched := fetched } =
      l.heldIds := by
    simp only [Ledger.heldIds, hheld, Multiset.map_cons]
  exact
    { balance := by rw [hsame]; exact h.balance
      nodup := h.nodup
      present := fun id hid => by rw [Ledger.ids, hids]; exact h.present id hid
      apart := h.apart
      before := fun id hid => by rw [Ledger.ids, hids]; exact h.before id hid }

variable {l l' : Ledger}

theorem Balanced.create (h : Balanced l) {jobId : String} {req : JobRequest} {now : Time}
    {db : Db} (hinsert : insertJob l.db now jobId req = some db) :
    Balanced
      { l with
        db := db
        held := (enqueued jobId req, .hand) ::ₘ l.held
        inserted := jobId :: l.inserted } where
  balance := by
    have hcons : Ledger.heldIds { l with held := (enqueued jobId req, .hand) ::ₘ l.held } =
        jobId ::ₘ l.heldIds := by
      simp only [Ledger.heldIds, Multiset.map_cons, enqueued_id]
    change Ledger.heldIds { l with held := (enqueued jobId req, .hand) ::ₘ l.held } + _ = _
    rw [hcons, Multiset.cons_add, h.balance]
    rfl
  nodup := by
    refine List.nodup_cons.mpr ⟨?_, h.nodup⟩
    intro hmem
    exact insertJob_fresh hinsert (h.present jobId hmem)
  present := by
    intro id hid
    rw [Ledger.ids, insertJob_ids hinsert]
    rcases List.mem_cons.mp hid with rfl | hid
    · exact List.mem_cons_self
    · exact List.mem_cons_of_mem _ (h.present id hid)
  apart := by
    intro id hid hknown
    rcases List.mem_cons.mp hid with rfl | hid
    · exact insertJob_fresh hinsert (h.before id hknown)
    · exact h.apart id hid hknown
  before := by
    intro id hid
    rw [Ledger.ids, insertJob_ids hinsert]
    exact List.mem_cons_of_mem _ (h.before id hid)

theorem Balanced.step (h : Balanced l) (hmove : Moves ok l l') : Balanced l' := by
  cases hmove with
  | quiet => exact h
  | create jobId req now db hinsert => exact h.create hinsert
  | orphan jobId req now db _ hinsert =>
      exact
        { h with
          present := fun id hid => by
            rw [Ledger.ids, insertJob_ids hinsert]
            exact List.mem_cons_of_mem _ (h.present id hid)
          before := fun id hid => by
            rw [Ledger.ids, insertJob_ids hinsert]
            exact List.mem_cons_of_mem _ (h.before id hid) }
  | enqueue job rest hheld => exact h.pass hheld rfl l.fetched
  | receive job rest hheld => exact h.pass hheld rfl l.fetched
  | work job p q inp db rest hheld _ hsteps => exact h.pass hheld hsteps.ids _
  | release job p inp db rest hheld _ hsteps =>
      have hids : ∀ id, id ∈ l.ids → id ∈ db.jobs.rows.map (·.jobId) := fun id hid => by
        rw [hsteps.ids]
        exact hid
      have hcons : l.heldIds = job.id ::ₘ rest.map fun x => x.1.id := by
        simp only [Ledger.heldIds, hheld, Multiset.map_cons]
      exact
        { balance := by
            rw [← h.balance, hcons]
            simp only [Ledger.heldIds, ← Multiset.cons_coe, Multiset.add_cons, Multiset.cons_add]
          nodup := h.nodup
          present := fun id hid => hids id (h.present id hid)
          apart := h.apart
          before := fun id hid => hids id (h.before id hid) }
  | halt =>
      exact
        { balance := rfl
          nodup := List.nodup_nil
          present := fun _ hid => absurd hid List.not_mem_nil
          apart := fun _ hid => absurd hid List.not_mem_nil
          before := fun _ hid => hid }

theorem Accounted.step (h : Accounted l) (hmove : Moves (· ≠ .applied) l l') : Accounted l' := by
  cases hmove with
  | quiet => exact h
  | create jobId req now db hinsert =>
      intro id hid
      rw [Ledger.ids, insertJob_ids hinsert] at hid
      rcases List.mem_cons.mp hid with rfl | hid
      · exact .inr List.mem_cons_self
      · exact (h id hid).imp_right (List.mem_cons_of_mem _)
  | orphan _ _ _ _ hno _ => exact absurd rfl hno
  | enqueue => exact h
  | receive => exact h
  | work job p q inp db rest _ _ hsteps =>
      intro id hid
      rw [Ledger.ids, hsteps.ids] at hid
      exact h id hid
  | release job p inp db rest _ _ hsteps =>
      intro id hid
      rw [Ledger.ids, hsteps.ids] at hid
      exact h id hid
  | halt => exact fun id hid => .inl hid

theorem balanced_cold (db : Db) : Balanced (ofState (State.cold db)) where
  balance := rfl
  nodup := List.nodup_nil
  present := fun _ hid => absurd hid List.not_mem_nil
  apart := fun _ hid => absurd hid List.not_mem_nil
  before := fun _ hid => hid

theorem balanced_of_reachable (h : Reachable Cold step Anything s) : Balanced (ofState s) := by
  refine h.invariant (I := fun s => Balanced (ofState s)) ?_ ?_
  · rintro _ ⟨db, rfl⟩
    exact balanced_cold db
  · intro s a t hbal _ hstep
    exact hbal.step (moves_any hstep)

theorem accounted_of_reachable (h : Reachable Cold step Clean s) : Accounted (ofState s) := by
  refine h.invariant (I := fun s => Accounted (ofState s)) ?_ ?_
  · rintro _ ⟨db, rfl⟩
    exact fun id hid => .inl hid
  · intro s a t hacc hclean hstep
    exact hacc.step (moves_step hclean hstep)

end TrendingPipeline.System.Custody
