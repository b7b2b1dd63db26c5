/- Unit: TrendingPipeline/System/Alone
   source: backend/etl/server.go, backend/cmd/server/main.go
   digest: A SubmitBatch call of the process while nobody else submits. -/

import TrendingPipeline.Etl.Batch
import TrendingPipeline.System.Dedup
import TrendingPipeline.System.SameKey

set_option autoImplicit false
set_option relaxedAutoImplicit false

namespace TrendingPipeline.System.Alone

open TrendingPipeline.Base.Runs
open TrendingPipeline.Proto.Messages (BatchResponse)
open TrendingPipeline.Store.Tables (Db)
open TrendingPipeline.Etl.Batch (Stage columns)
open TrendingPipeline.Etl.Submit (Call)
open TrendingPipeline.Worker.ProcessJob (Job)
open TrendingPipeline.System.Step
open TrendingPipeline.System.Dedup (asInserted insertedRows insertedRows_of_work)
open TrendingPipeline.System.SameKey (LivesOn)

/-- Only call `i` takes steps of its own, and the process lives on. -/
def OnlyCall (i : Nat) (s : State) (a : Act) : Prop :=
  LivesOn s a ∧
    match a with
    | .call j _ => j = i
    | .receive _ | .work _ _ | .shutdown => True
    | .submitJob _ | .submitBatch | .exit | .boot _ => False

structure Shows (i : Nat) (s : State) (b : Stage) : Prop where
  db : s.db = b.db
  call : s.calls[i]? = some b.call

/-- Of what stood in the channel and what was put on it since, the workers have taken
the first jobs, and the rest is there. -/
def Passed (s t : State) (put : List Job) : Prop :=
  ∃ taken, taken ++ t.queue = s.queue ++ put

theorem Passed.of_same {s t : State} (h : t.queue = s.queue) : Passed s t [] :=
  ⟨[], by rw [h, List.nil_append, List.append_nil]⟩

theorem Passed.trans {s m t : State} {put put' : List Job} (h : Passed s m put)
    (h' : Passed m t put') : Passed s t (put ++ put') := by
  obtain ⟨taken, htaken⟩ := h
  obtain ⟨taken', htaken'⟩ := h'
  exact ⟨taken ++ taken', by
    rw [List.append_assoc, htaken', ← List.append_assoc, htaken, List.append_assoc]⟩

private theorem columns_eq (db : Db) :
    columns db = (insertedRows db).map fun r => (r.jobId, r.idempotencyKey) := by
  rw [insertedRows, List.map_map]
  rfl

variable {i : Nat} {s t : State} {b : Stage}

structure Follows (i : Nat) (s : State) (acts : List Act) (t : State) (b : Stage)
    (bacts : List Etl.Batch.Act) (b' : Stage) : Prop where
  run : run Etl.Batch.step b bacts = some b'
  shows : Shows i t b'
  passed : ∃ put, b'.sent = b.sent ++ put ∧ Passed s t put
  effectless : Meets step Clean s acts → Meets Etl.Batch.step Etl.Batch.Effectless b bacts
  healthy : Meets step Healthy s acts → Meets Etl.Batch.step Etl.Batch.Healthy b bacts

theorem Shows.waits (h : Shows i s b) {a : Act} (hcalls : t.calls = s.calls)
    (hqueue : ∃ taken, taken ++ t.queue = s.queue) (hcolumns : columns t.db = columns s.db) :
    ∃ bacts b', Follows i s [a] t b bacts b' := by
  have hstep : Etl.Batch.step b (.workers t.db) = some { b with db := t.db } := by
    rw [h.db] at hcolumns
    rw [Etl.Batch.step, if_pos hcolumns]
  have hhealthy : Etl.Batch.Healthy b (.workers t.db) := ⟨rfl, trivial⟩
  refine ⟨[.workers t.db], { b with db := t.db }, ?_, ⟨rfl, by rw [hcalls]; exact h.call⟩,
    ⟨[], (List.append_nil _).symm, ?_⟩, ?_, ?_⟩
  · exact run_cons_eq_some.mpr ⟨_, hstep, rfl⟩
  · obtain ⟨taken, htaken⟩ := hqueue
    exact ⟨taken, by rw [htaken, List.append_nil]⟩
  · intro _
    exact (meets_cons hstep).mpr ⟨hhealthy.effectless, trivial⟩
  · intro _
    exact (meets_cons hstep).mpr ⟨hhealthy, trivial⟩

private theorem Shows.goes (h : Shows i s b) {c : Call} {ev : Etl.Submit.Event}
    {e : Etl.Submit.Effect}
    (hc : s.calls[i]? = some c) (hstep : Etl.Submit.step s.db c ev = some e) (hdb : t.db = e.db)
    (hcalls : t.calls = s.calls.set i e.call) (hqueue : t.queue = s.queue ++ e.sent.toList) :
    ∃ bacts b', Follows i s [.call i ev] t b bacts b' := by
  obtain rfl : c = b.call := Option.some.inj (hc.symm.trans h.call)
  have hown : Etl.Batch.step b (.own ev) =
      some { db := e.db, call := e.call, created := b.created ++ e.created.toList,
             sent := b.sent ++ e.sent.toList } := by
    rw [Etl.Batch.step, ← h.db, hstep, Option.map_some]
  have hlt : i < s.calls.length := (List.getElem?_eq_some_iff.mp hc).1
  refine ⟨[.own ev], _, run_cons_eq_some.mpr ⟨_, hown, rfl⟩, ⟨hdb, ?_⟩,
    ⟨e.sent.toList, rfl, [], hqueue⟩, ?_, ?_⟩
  · rw [hcalls, List.getElem?_set_self hlt]
  · intro hclean
    refine (meets_cons hown).mpr ⟨?_, trivial⟩
    cases ev <;> exact hclean.1
  · intro hhealthy
    refine (meets_cons hown).mpr ⟨?_, trivial⟩
    obtain ⟨⟨hfault, hfresh⟩, -⟩ := hhealthy
    cases ev with
    | insert fault jobId now =>
        refine ⟨hfault, ?_⟩
        rw [FreshId, h.db] at hfresh
        exact hfresh
    | recv _ => exact ⟨rfl, trivial⟩
    | lookup _ _ => exact ⟨hfault, trivial⟩
    | send _ => exact ⟨rfl, trivial⟩

private theorem follows_step (h : Shows i s b) {a : Act} (honly : OnlyCall i s a)
    (hstep : step s a = some t) : ∃ bacts b', Follows i s [a] t b bacts b' := by
  obtain ⟨hlives, honly⟩ := honly
  rw [LivesOn, hstep] at hlives
  have hphase : t.phase ≠ .down := of_decide_eq_true hlives
  cases acts_of_step hstep with
  | submitJob => exact honly.elim
  | submitBatch => exact honly.elim
  | exit => exact honly.elim
  | boot => exact honly.elim
  | shutdown => exact h.waits rfl ⟨[], rfl⟩ rfl
  | receive w job rest hw hqueue => exact h.waits rfl ⟨[job], hqueue.symm⟩ rfl
  | work w inp job p hw =>
      have hcolumns : columns (s.afterWork w job p inp).db = columns s.db := by
        rw [columns_eq, columns_eq, s.afterWork_db,
          insertedRows_of_work (Worker.Effects.steps_step job inp s.db p)]
      rcases s.afterWork_memory w job p inp with ⟨hcalls, hqueue⟩ | ⟨hdown, -⟩
      · exact h.waits hcalls ⟨[], hqueue⟩ hcolumns
      · exact absurd hdown hphase
  | call j ev c e hc hcall hsent =>
      obtain rfl : j = i := honly
      exact h.goes hc hcall rfl rfl (by rw [hsent]; exact (List.append_nil _).symm)
  | send j ev c e job hc hcall hsent =>
      obtain rfl : j = i := honly
      exact h.goes hc hcall rfl rfl (by rw [hsent]; rfl)

private theorem follows_run {acts : List Act} (h : Shows i s b)
    (honly : Meets step (OnlyCall i) s acts) (hrun : run step s acts = some t) :
    ∃ bacts b', Follows i s acts t b bacts b' := by
  induction acts generalizing s b with
  | nil =>
      obtain rfl := Option.some.inj hrun
      exact ⟨[], b, rfl, h, ⟨[], (List.append_nil _).symm, .of_same rfl⟩, fun _ => trivial,
        fun _ => trivial⟩
  | cons a acts ih =>
      obtain ⟨m, hstep, hrest⟩ := run_cons_eq_some.mp hrun
      obtain ⟨ha, has⟩ := (meets_cons hstep).mp honly
      obtain ⟨bacts, b', hfirst⟩ := follows_step h ha hstep
      obtain ⟨bacts', b'', hthen⟩ := ih hfirst.shows has hrest
      refine ⟨bacts ++ bacts', b'', (run_append hfirst.run).trans hthen.run, hthen.shows,
        ?_, ?_, ?_⟩
      · obtain ⟨put, hput, hpassed⟩ := hfirst.passed
        obtain ⟨put', hput', hpassed'⟩ := hthen.passed
        exact ⟨put ++ put', by rw [hput', hput, List.append_assoc], hpassed.trans hpassed'⟩
      · intro hclean
        obtain ⟨hnow, hlater⟩ := (meets_cons hstep).mp hclean
        exact meets_append hfirst.run (hfirst.effectless ((meets_cons hstep).mpr ⟨hnow, trivial⟩))
          (hthen.effectless hlater)
      · intro hhealthy
        obtain ⟨hnow, hlater⟩ := (meets_cons hstep).mp hhealthy
        exact meets_append hfirst.run (hfirst.healthy ((meets_cons hstep).mpr ⟨hnow, trivial⟩))
          (hthen.healthy hlater)

section Calls

variable {m : State} {acts : List Act} {c : Call} {r : BatchResponse}

private theorem shows_begin (hopen : step s .submitBatch = some m) :
    Shows s.calls.length m (Etl.Batch.begin s.db) ∧ m.queue = s.queue := by
  cases acts_of_step hopen with
  | submitBatch hup => exact ⟨⟨rfl, List.getElem?_concat_length⟩, rfl⟩

private theorem exists_follows (hopen : step s .submitBatch = some m)
    (honly : Meets step (OnlyCall s.calls.length) m acts) (hrun : run step m acts = some t)
    (hc : t.calls[s.calls.length]? = some c) :
    ∃ bacts b', Follows s.calls.length m acts t (Etl.Batch.begin s.db) bacts b' ∧ b'.db = t.db ∧
      b'.call = c ∧ Passed s t b'.sent := by
  obtain ⟨hshows, hqueue⟩ := shows_begin hopen
  obtain ⟨bacts, b', hfollows⟩ := follows_run hshows honly hrun
  obtain ⟨put, hput, hpassed⟩ := hfollows.passed
  refine ⟨bacts, b', hfollows, hfollows.shows.db.symm,
    Option.some.inj (hfollows.shows.call.symm.trans hc), ?_⟩
  rw [hput]
  exact (Passed.of_same hqueue).trans hpassed

theorem exists_run (hopen : step s .submitBatch = some m)
    (honly : Meets step (OnlyCall s.calls.length) m acts) (hclean : Meets step Clean m acts)
    (hrun : run step m acts = some t) (hc : t.calls[s.calls.length]? = some c)
    (hreturned : c.hasReturned = true) :
    ∃ bacts b', Etl.Batch.Run s.db bacts b' ∧ b'.db = t.db ∧ b'.call = c ∧ Passed s t b'.sent := by
  obtain ⟨bacts, b', hfollows, hdb, rfl, hpassed⟩ := exists_follows hopen honly hrun hc
  exact ⟨bacts, b', ⟨hfollows.run, hfollows.effectless hclean, hreturned⟩, hdb, rfl, hpassed⟩

theorem exists_healthyRun (hopen : step s .submitBatch = some m)
    (honly : Meets step (OnlyCall s.calls.length) m acts) (hhealthy : Meets step Healthy m acts)
    (hrun : run step m acts = some t) (hc : t.calls[s.calls.length]? = some c)
    (hreturned : c.point = .returned (.batch r)) :
    ∃ bacts b', Etl.Batch.HealthyRun s.db (c.answers.map Prod.fst) bacts b' r ∧ b'.db = t.db ∧
      b'.call = c ∧ Passed s t b'.sent := by
  obtain ⟨bacts, b', hfollows, hdb, rfl, hpassed⟩ := exists_follows hopen honly hrun hc
  have hmeets := hfollows.healthy hhealthy
  have hreceived : Etl.Batch.Run s.db bacts b' :=
    ⟨hfollows.run, meets_mono (fun _ _ => Etl.Batch.Healthy.effectless) hmeets,
      by rw [Call.hasReturned, hreturned]⟩
  exact ⟨bacts, b', ⟨hfollows.run, hmeets, hreceived.answered.symm, hreturned⟩, hdb, rfl, hpassed⟩

end Calls

end TrendingPipeline.System.Alone
