/- Unit: TrendingPipeline/System/ListRest
   source: frontend/components/jobs-list.tsx, backend/etl/server.go, backend/worker/worker.go
   digest: What the jobs list shows once its jobs are over and one more round has ended. -/

import TrendingPipeline.System.Rounds

set_option autoImplicit false
set_option relaxedAutoImplicit false

namespace TrendingPipeline.System.ListRest

open TrendingPipeline.Base.Runs
open TrendingPipeline.Etl.WatchJob (scanJobStatus)
open TrendingPipeline.Frontend.JobsList
open TrendingPipeline.Store.Statements (getJobByID)
open TrendingPipeline.Store.Tables (Db JobRow)
open TrendingPipeline.System.Rounds
open TrendingPipeline.System.Step (Anything Cold)
open TrendingPipeline.System.Watching (row_of_process)

/-- Every round is about the same ids, and no request fails. -/
def Steady (ids : List String) (_ : State) : Act → Prop
  | .fetchJobs _ stored => stored = some ids
  | .reject _ _ => False
  | .process _ | .read _ _ | .resume _ _ => True

instance steady_decidable (ids : List String) (s : State) : ∀ a, Decidable (Steady ids s a)
  | .fetchJobs _ stored => inferInstanceAs (Decidable (stored = some ids))
  | .reject _ _ => inferInstanceAs (Decidable False)
  | .process _ | .read _ _ | .resume _ _ => inferInstanceAs (Decidable True)

def Ends : Act → Prop
  | .resume _ _ => True
  | .process _ | .fetchJobs _ _ | .read _ _ | .reject _ _ => False

/-- A status of a job that is over, as the tables have it. -/
def IsLast (db : Db) (id : String) (a : Read) : Prop :=
  ∃ r, getJobByID db id = some r ∧ r.state.terminal = true ∧ a.toJobStatus = scanJobStatus r

/-- A request that has been answered, if at all, with the last status of its job. -/
def AnsweredLast (db : Db) (q : Request) : Prop :=
  ∀ result ∈ q.result, ∃ a, result = .fulfilled a ∧ IsLast db q.jobId a

/-- The jobs are over, and every round on its way brings their last statuses. -/
structure Resting (ids : List String) (s : State) : Prop where
  reachable : Reachable Cold Step.step Anything s.sys
  ended : ∀ id ∈ ids, ∃ r, getJobByID s.sys.db id = some r ∧ r.state.terminal = true
  about : ∀ round ∈ s.rounds, round.map (·.jobId) = ids
  answers : ∀ round ∈ s.rounds, ∀ q ∈ round, AnsweredLast s.sys.db q

/-- The list has one line for each id, with the last status of its job. -/
structure ShowsLast (ids : List String) (s : State) : Prop where
  jobs : List.Forall₂ (IsLast s.sys.db) ids s.page.jobs
  loading : s.page.loading = false

section Steps

variable {ids : List String} {s t : State}

theorem IsLast.process {sys sys' : Step.State} {a : Step.Act}
    (h : Reachable Cold Step.step Anything sys) (hstep : Step.step sys a = some sys')
    {id : String} {b : Read} (hlast : IsLast sys.db id b) : IsLast sys'.db id b := by
  obtain ⟨r, hr, hterminal, hstatus⟩ := hlast
  obtain ⟨r', hr', -, hsame⟩ := row_of_process h hr hstep
  obtain rfl := hsame hterminal
  exact ⟨r', hr', hterminal, hstatus⟩

private theorem values_of_settled {db : Db} {round : List Request}
    (hanswers : ∀ q ∈ round, AnsweredLast db q) (hall : round.all (·.result.isSome) = true) :
    List.Forall₂ (IsLast db) (round.map (·.jobId)) (values round) := by
  induction round with
  | nil => exact .nil
  | cons q round ih =>
      rw [List.all_cons, Bool.and_eq_true] at hall
      obtain ⟨result, hresult⟩ := Option.isSome_iff_exists.mp hall.1
      obtain ⟨a, rfl, hlast⟩ := hanswers q List.mem_cons_self result hresult
      have hvalue : q.result.bind Settled.value = some a := by
        rw [hresult]
        rfl
      have hvalues : values (q :: round) = a :: values round := List.filterMap_cons_some hvalue
      rw [List.map_cons, hvalues]
      exact .cons hlast (ih (fun q' hq' => hanswers q' (List.mem_cons_of_mem q hq')) hall.2)

theorem Resting.process (h : Resting ids s) {a : Step.Act} {sys : Step.State}
    (hstep : Step.step s.sys a = some sys) : Resting ids { s with sys := sys } where
  reachable := h.reachable.next trivial hstep
  ended id hid := by
    obtain ⟨r, hr, hterminal⟩ := h.ended id hid
    obtain ⟨r', hr', -, hsame⟩ := row_of_process h.reachable hr hstep
    obtain rfl := hsame hterminal
    exact ⟨r', hr', hterminal⟩
  about := h.about
  answers round hround q hq result hresult := by
    obtain ⟨a, hfulfilled, hlast⟩ := h.answers round hround q hq result hresult
    exact ⟨a, hfulfilled, hlast.process h.reachable hstep⟩

theorem Resting.fetchJobs (h : Resting ids s) (silent : Bool) :
    Resting ids (s.fetchJobs silent (some ids)) := by
  cases ids with
  | nil => exact ⟨h.reachable, h.ended, h.about, h.answers⟩
  | cons id rest =>
      refine ⟨h.reachable, h.ended, ?_, ?_⟩
      · intro round hround
        rcases List.mem_append.mp hround with hold | hnew
        · exact h.about round hold
        · obtain rfl := List.mem_singleton.mp hnew
          rw [List.map_map]
          exact List.map_id (id :: rest)
      · intro round hround
        rcases List.mem_append.mp hround with hold | hnew
        · exact h.answers round hold
        · obtain rfl := List.mem_singleton.mp hnew
          intro q hq result hresult
          obtain ⟨id', -, rfl⟩ := List.mem_map.mp hq
          cases hresult

theorem Resting.answered {i k : ℕ} {q : Request} {a : Read} {reads : ℕ} (h : Resting ids s)
    (hq : s.request i k = some q) (hlast : IsLast s.sys.db q.jobId a)
    (hstep : { s with reads := reads }.answered i k (.fulfilled a) = some t) :
    Resting ids t ∧ t.sys = s.sys ∧ t.page = s.page := by
  obtain ⟨round, hround, hrest⟩ := Option.bind_eq_some_iff.mp hstep
  obtain ⟨q', hq', hanswer⟩ := Option.bind_eq_some_iff.mp hrest
  have hround' : s.rounds[i]? = some round := hround
  have hsame : q = q' := by
    unfold State.request at hq
    rw [hround', Option.bind_some] at hq
    exact Option.some.inj (hq.symm.trans hq')
  subst hsame
  split at hanswer
  · cases hanswer
  obtain rfl := Option.some.inj hanswer
  have hmem : round ∈ s.rounds := List.mem_of_getElem? hround'
  refine ⟨⟨h.reachable, h.ended, ?_, ?_⟩, rfl, rfl⟩
  · intro round' hround'
    rcases List.mem_or_eq_of_mem_set hround' with hold | rfl
    · exact h.about round' hold
    · have hids := h.about round hmem
      have hid : (round.map (·.jobId))[k]? = some q.jobId := by
        rw [List.getElem?_map, hq', Option.map_some]
      obtain ⟨hlt, hget⟩ := List.getElem?_eq_some_iff.mp hid
      rw [List.map_set, ← hids]
      show (round.map (·.jobId)).set k q.jobId = round.map (·.jobId)
      rw [← hget, List.set_getElem_self]
  · intro round' hround'
    rcases List.mem_or_eq_of_mem_set hround' with hold | rfl
    · exact h.answers round' hold
    · intro q'' hq''
      rcases List.mem_or_eq_of_mem_set hq'' with hold | rfl
      · exact h.answers round hmem q'' hold
      · intro result hresult
        obtain rfl := Option.some.inj hresult
        exact ⟨a, rfl, hlast⟩

private theorem Resting.isLast_of_row (h : Resting ids s) {i k : ℕ} {q : Request} {row : JobRow}
    (hq : s.request i k = some q) (hrow : getJobByID s.sys.db q.jobId = some row) :
    IsLast s.sys.db q.jobId ⟨scanJobStatus row, s.reads⟩ := by
  obtain ⟨round, hround, hq⟩ := Option.bind_eq_some_iff.mp hq
  have hid : q.jobId ∈ ids := by
    rw [← h.about round (List.mem_of_getElem? hround)]
    exact List.mem_map_of_mem (List.mem_of_getElem? hq)
  obtain ⟨r, hr, hterminal⟩ := h.ended q.jobId hid
  obtain rfl := Option.some.inj (hrow.symm.trans hr)
  exact ⟨row, hrow, hterminal, rfl⟩

theorem Resting.resume (h : Resting ids s) {i : ℕ} {round : List Request}
    {results : List (Settled Read)} (hround : s.rounds[i]? = some round)
    (hresults : allSettled round = some results) (now : Base.Calendar.Time) :
    ShowsLast ids
      ({ s with rounds := s.rounds.eraseIdx i }.withPage (s.page.shows results now)) := by
  have hmem : round ∈ s.rounds := List.mem_of_getElem? hround
  have hall : round.all (·.result.isSome) = true := by
    unfold allSettled at hresults
    split at hresults
    · assumption
    · cases hresults
  refine ⟨?_, rfl⟩
  show List.Forall₂ (IsLast s.sys.db) ids (fetched results)
  rw [settled_values hresults, ← h.about round hmem]
  exact values_of_settled (h.answers round hmem) hall

/-- A step of the list: it goes on resting, keeps what it shows, and shows the last statuses
when a round ends. -/
theorem Resting.step {a : Act} (h : Resting ids s) (ha : Steady ids s a)
    (hstep : step s a = some t) : Resting ids t ∧ (ShowsLast ids s ∨ Ends a → ShowsLast ids t) := by
  cases a with
  | process a =>
      obtain ⟨sys, hsys, rfl⟩ := Option.map_eq_some_iff.mp hstep
      refine ⟨h.process hsys, fun hshows => ?_⟩
      rcases hshows with hshows | hends
      · exact ⟨hshows.jobs.imp fun _ _ => IsLast.process h.reachable hsys, hshows.loading⟩
      · exact hends.elim
  | fetchJobs silent stored =>
      obtain rfl := ha
      simp only [Rounds.step] at hstep
      split at hstep
      · cases hstep
      · obtain rfl := Option.some.inj hstep
        refine ⟨h.fetchJobs silent, fun hshows => ?_⟩
        rcases hshows with hshows | hends
        · cases ids with
          | nil => exact ⟨.nil, rfl⟩
          | cons id rest =>
              refine ⟨?_, ?_⟩
              · show List.Forall₂ _ _ (s.page.marked silent).jobs
                rw [Page.jobs_marked]
                exact hshows.jobs
              · show (s.page.marked silent).loading = false
                unfold Page.marked
                split <;> exact hshows.loading
        · exact hends.elim
  | read i k =>
      simp only [Rounds.step] at hstep
      split at hstep
      · cases hstep
      · obtain ⟨q, hq, hrest⟩ := Option.bind_eq_some_iff.mp hstep
        obtain ⟨row, hrow, hanswer⟩ := Option.bind_eq_some_iff.mp hrest
        obtain ⟨hresting, hsys, hpage⟩ := h.answered hq (h.isLast_of_row hq hrow) hanswer
        refine ⟨hresting, fun hshows => ?_⟩
        rcases hshows with hshows | hends
        · refine ⟨?_, ?_⟩
          · rw [hsys, hpage]
            exact hshows.jobs
          · rw [hpage]
            exact hshows.loading
        · exact hends.elim
  | reject i k => exact ha.elim
  | resume i now =>
      obtain ⟨round, hround, hrest⟩ := Option.bind_eq_some_iff.mp hstep
      obtain ⟨results, hresults, rfl⟩ := Option.map_eq_some_iff.mp hrest
      refine ⟨⟨h.reachable, h.ended, ?_, ?_⟩, fun _ => h.resume hround hresults now⟩
      · exact fun round' hround' => h.about round' (List.mem_of_mem_eraseIdx hround')
      · exact fun round' hround' => h.answers round' (List.mem_of_mem_eraseIdx hround')

end Steps

section Runs

variable {ids : List String} {s t : State} {as : List Act}

/-- From a moment at which no round is on its way and every stored job is over, through any
steps of the process and any rounds, overlapping in any way, whose requests are answered:
once a round has ended, the list has one line for each stored id, in their order, with the
status its row has and keeps. -/
theorem list_rests (hreach : Reachable Mounts step (fun _ _ => True) s) (hquiet : s.rounds = [])
    (hover : ∀ id ∈ ids, ∃ r, getJobByID s.sys.db id = some r ∧ r.state.terminal = true)
    (hrun : run step s as = some t) (hsteady : Meets step (Steady ids) s as)
    (hends : ∃ a ∈ as, Ends a) : ShowsLast ids t := by
  have htracked : Tracked s :=
    hreach.invariant (fun _ => tracked_of_mounts) fun _ _ _ h _ => tracked_of_step h
  have hresting : Resting ids s := by
    refine ⟨htracked.1, hover, ?_, ?_⟩
    all_goals
      intro round hround
      rw [hquiet] at hround
      exact absurd hround List.not_mem_nil
  exact run_once (fun _ _ _ h ha hstep => (h.step ha hstep).1)
    (fun _ _ _ h hshows ha hstep => (h.step ha hstep).2 (.inl hshows))
    (fun _ _ _ h ha hbrings hstep => (h.step ha hstep).2 (.inr hbrings)) hresting hsteady hrun hends

def finishing : List Act :=
  starting ++ [.process (.work 0 { get := fun _ => .response 200 "\x7b\x7d" }),
    .process (.work 0 {})]

def finished : State := (run step rendered finishing).getD rendered

def crossing : List Act :=
  [.fetchJobs false Rounds.ids, .fetchJobs true Rounds.ids, .read 1 0, .read 0 0] ++ ends 1 ++
    ends 0

def finishedEnd : State := (run step finished crossing).getD finished

private theorem crossing_runs :
    (run step rendered finishing).isSome = true ∧ finished.rounds.length = 0 ∧
      (getJobByID finished.sys.db "job-1").map (·.state.terminal) = some true ∧
      (run step finished crossing).isSome = true ∧
      Meets step (Steady ["job-1"]) finished crossing ∧
      finishedEnd.page.jobs.map (·.state) = [.done] := by
  decide +kernel

theorem list_rests_crossing :
    ShowsLast ["job-1"] finishedEnd ∧ finishedEnd.page.jobs.map (·.state) = [.done] := by
  obtain ⟨hfinished, hquiet, hover, hcrossing, hsteady, hdone⟩ := crossing_runs
  have hreach : Reachable Mounts step (fun _ _ => True) finished :=
    .of_run mounts_rendered (run_eq_getD hfinished rendered) (meets_true _ _)
  have hjobs : ∀ id ∈ ["job-1"], ∃ r, getJobByID finished.sys.db id = some r ∧
      r.state.terminal = true := by
    intro id hid
    obtain rfl := List.mem_singleton.mp hid
    exact Option.map_eq_some_iff.mp hover
  have hends : ∃ a ∈ crossing, Ends a :=
    ⟨.resume 0 Base.Calendar.Time.zero, List.mem_append_right _ List.mem_cons_self, trivial⟩
  exact ⟨list_rests hreach (List.length_eq_zero_iff.mp hquiet) hjobs
    (run_eq_getD hcrossing finished) hsteady hends, hdone⟩

end Runs

end TrendingPipeline.System.ListRest
