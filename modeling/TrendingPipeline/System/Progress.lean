/- Unit: TrendingPipeline/System/Progress
   source: frontend/components/job-detail.tsx, backend/worker/worker.go, backend/etl/server.go
   digest: What the progress bars of the job page can show in any run. -/

import TrendingPipeline.Frontend.Progress
import TrendingPipeline.System.PageRest

set_option autoImplicit false
set_option relaxedAutoImplicit false

namespace TrendingPipeline.System.Progress

open TrendingPipeline.Base.Doubles.Number (ofInt)
open TrendingPipeline.Base.Runs
open TrendingPipeline.Etl.WatchJob (Event Watch afterUpdate scanJobStatus stateOf steps_or_fails
  updateOf)
open TrendingPipeline.Frontend.JobDetail (Loaded Page maxUpdates)
open TrendingPipeline.Frontend.JobView (isTerminalState isTerminalState_status numberIn)
open TrendingPipeline.Frontend.JobsApi (Engine browser)
open TrendingPipeline.Frontend.Progress
open TrendingPipeline.Frontend.WatchJob (WritesUpdates)
open TrendingPipeline.Proto.Messages (JobStatus JobUpdate)
open TrendingPipeline.Store.Tables (Db JobRow)
open TrendingPipeline.Store.Statements (getJobByID)
open TrendingPipeline.System.LiveUpdates
open TrendingPipeline.System.Step (Anything Migrated cold_of_migrated)

def RowsMatch (db : Db) : Prop :=
  ∀ id r, db.jobs.byId id = some r → Matched (stateOf r) r.videosFetched r.videosInserted

def StatusMatches (status : JobStatus) : Prop :=
  Matched status.state status.videosFetched status.videosInserted

def UpdateMatches (u : JobUpdate) : Prop := Matched u.state u.videosFetched u.videosInserted

/-- What a call has sent, and what it is about to send. -/
structure WatchMatches (w : Watch) : Prop where
  sent : ∀ u ∈ w.sent, UpdateMatches u
  pending : ∀ status, w.point = .send status → StatusMatches status

/-- What the page holds, and what is on its way to it. -/
structure PageMatches (s : State) : Prop where
  job : ∀ job ∈ s.page.job, StatusMatches job
  updates : ∀ u ∈ s.page.updates, UpdateMatches u
  stream : ∀ c ∈ s.stream, WatchMatches c.watch
  fetches : ∀ f ∈ s.fetches, ∀ status, f.answer = some (.ok status) → StatusMatches status

private theorem rowsMatch_of_reachable {sys : Step.State}
    (h : Reachable Migrated Step.step Anything sys) : RowsMatch sys.db := by
  intro id r hr
  rcases Rows.regular_of_reachable h id r hr with (hwait | ⟨k, hk⟩) | ⟨k, hk⟩ | ⟨k, hk⟩
  · have hfetched : r.videosFetched = 0 := congrArg (·.videosFetched) hwait
    have hinserted : r.videosInserted = 0 := congrArg (·.videosInserted) hwait
    exact ⟨hinserted.trans hfetched.symm, fun _ => hfetched⟩
  · exact ⟨hk.videosInserted.trans hk.videosFetched.symm, fun _ => hk.videosFetched⟩
  · refine ⟨hk.counts, fun hundone => absurd ?_ hundone⟩
    rw [stateOf, hk.state]
    rfl
  · exact ⟨hk.videosInserted.trans hk.videosFetched.symm, fun _ => hk.videosFetched⟩

section Steps

variable {s t : State} {r : JobRow} {c : Stream}

private theorem watchMatches_start (jobId : String) : WatchMatches
    { req := { jobId := jobId } } where
  sent _ hu := absurd hu List.not_mem_nil
  pending _ hpoint := by cases hpoint

/-- Every step of a call keeps to counts that match: those it sends are those it has read. -/
theorem WatchMatches.step {db : Db} {w w' : Watch} {ev : Event} (h : WatchMatches w)
    (hrow : getJobByID db w.req.jobId = some r)
    (hmatch : Matched (stateOf r) r.videosFetched r.videosInserted)
    (hstep : Etl.WatchJob.step db w ev = some w') : WatchMatches w' := by
  have hafter : ∀ status status' : JobStatus,
      afterUpdate status = .send status' → StatusMatches status' := by
    intro status status' hpoint
    unfold afterUpdate at hpoint
    split at hpoint <;> cases hpoint
  rcases steps_or_fails hstep hrow with hsteps | ⟨err, rfl⟩
  · cases hsteps with
    | check _ => exact ⟨h.sent, fun _ hpoint => by cases hpoint⟩
    | differs _ _ =>
        refine ⟨h.sent, fun status hpoint => ?_⟩
        cases hpoint
        exact hmatch
    | same _ _ => exact ⟨h.sent, hafter _⟩
    | sent status now hpoint =>
        refine ⟨fun u hu => ?_, hafter _⟩
        rcases List.mem_append.mp hu with hold | hnew
        · exact h.sent u hold
        · obtain rfl := List.mem_singleton.mp hnew
          exact h.pending status hpoint
    | woken _ => exact ⟨h.sent, fun _ hpoint => by cases hpoint⟩
  · exact ⟨h.sent, fun _ hpoint => by cases hpoint⟩

theorem PageMatches.deliver {u : JobUpdate} (h : PageMatches s) (hstream : s.stream = some c)
    (hnext : c.next = some u) : PageMatches (s.onUpdate c u) := by
  have hwatch := h.stream c hstream
  have hu : UpdateMatches u := hwatch.sent u (List.mem_of_getElem? hnext)
  refine ⟨?_, ?_, ?_, ?_⟩
  · intro job hjob
    obtain ⟨prev, -, rfl⟩ := Option.map_eq_some_iff.mp hjob
    exact hu
  · intro u' hu'
    rcases List.mem_cons.mp (List.mem_of_mem_take hu') with rfl | hold
    · exact hu
    · exact h.updates u' hold
  · intro c' hc'
    obtain rfl := Option.some.inj hc'
    exact hwatch
  · intro f hf status hanswer
    rcases PageRest.mem_fetches_onUpdate.mp hf with hold | ⟨-, rfl⟩
    · exact h.fetches f hold status hanswer
    · cases hanswer

/-- The page shows the same job and the same updates, and the same loads are on their way. -/
theorem PageMatches.same (h : PageMatches s) (hsame : PageRest.Same s t)
    (hupdates : t.page.updates = s.page.updates) (hstream : ∀ c ∈ t.stream, WatchMatches c.watch) :
    PageMatches t where
  job job hjob := h.job job (hsame.job ▸ hjob)
  updates u hu := h.updates u (hupdates ▸ hu)
  stream := hstream
  fetches f hf := h.fetches f (hsame.fetches ▸ hf)

private theorem updates_cleanup (s : State) : s.cleanup.page.updates = s.page.updates := by
  unfold State.cleanup
  split <;> rfl

theorem PageMatches.effect (h : PageMatches s) (key : Option Proto.Messages.JobState) :
    PageMatches { s.cleanup.subscribe with deps := key } := by
  have hclean := PageRest.same_cleanup s
  have hnone : s.cleanup.stream = none := (cleanup_cases s).2.2.2
  have hclosed : ∀ c ∈ s.cleanup.stream, WatchMatches c.watch := by
    rw [hnone]
    exact fun c hc => absurd hc (Option.not_mem_none c)
  unfold State.subscribe
  split
  · split
    · exact h.same ⟨hclean.job, hclean.loading, hclean.error, hclean.fetches⟩ (updates_cleanup s)
        hclosed
    · refine h.same ⟨hclean.job, hclean.loading, hclean.error, hclean.fetches⟩
        (updates_cleanup s) fun c hc => ?_
      obtain rfl := Option.some.inj hc
      exact watchMatches_start s.cleanup.jobId
  · exact h.same ⟨hclean.job, hclean.loading, hclean.error, hclean.fetches⟩ (updates_cleanup s)
      hclosed

theorem PageMatches.answered {i : ℕ} {answer : Loaded} (h : PageMatches s)
    (hanswer : ∀ status, answer = .ok status → StatusMatches status)
    (hstep : s.answered i answer = some t) : PageMatches t := by
  unfold State.answered at hstep
  split at hstep
  · obtain rfl := Option.some.inj hstep
    refine ⟨h.job, h.updates, h.stream, fun f hf status hf' => ?_⟩
    rcases List.mem_or_eq_of_mem_set hf with hold | rfl
    · exact h.fetches f hold status hf'
    · exact hanswer status (Option.some.inj hf')
  · cases hstep

theorem PageMatches.settled {i : ℕ} {f : Fetch} {answer : Loaded} (h : PageMatches s)
    (hanswer : ∀ status, answer = .ok status → StatusMatches status) :
    PageMatches (s.settled i f answer) := by
  have hpage : ∀ p : Page, p = s.page.loaded answer ∨ p = s.page.refetched answer →
      (∀ job ∈ p.job, StatusMatches job) ∧ p.updates = s.page.updates := by
    rintro p (rfl | rfl)
    · cases answer with
      | ok status =>
          refine ⟨fun job hjob => ?_, rfl⟩
          obtain rfl := Option.some.inj hjob
          exact hanswer _ rfl
      | error message => exact ⟨h.job, rfl⟩
    · cases answer with
      | ok status =>
          refine ⟨fun job hjob => ?_, rfl⟩
          obtain rfl := Option.some.inj hjob
          exact hanswer _ rfl
      | error message => exact ⟨h.job, rfl⟩
  obtain ⟨hjob, hupdates⟩ := hpage (s.settled i f answer).page (by
    unfold State.settled
    dsimp only
    split
    · exact .inl rfl
    · exact .inr rfl)
  refine ⟨hjob, fun u hu => h.updates u (hupdates ▸ hu), h.stream, fun f' hf' => ?_⟩
  exact h.fetches f' (List.mem_of_mem_eraseIdx hf')

theorem PageMatches.step {a : Act} (h : PageMatches s) (htracked : Tracked s)
    (hrows : RowsMatch s.sys.db) (hstep : step s a = some t) : PageMatches t := by
  cases a with
  | process a =>
      simp only [LiveUpdates.step] at hstep
      split at hstep
      · cases hstep
      · obtain ⟨sys, -, rfl⟩ := Option.map_eq_some_iff.mp hstep
        refine ⟨h.job, h.updates, fun c hc => ?_, h.fetches⟩
        obtain ⟨c₀, hc₀, rfl⟩ := Option.map_eq_some_iff.mp hc
        exact h.stream c₀ hc₀
  | watch ev =>
      obtain ⟨c, hc, hrest⟩ := Option.bind_eq_some_iff.mp hstep
      split at hrest
      · cases hrest
      · obtain ⟨w, hw, rfl⟩ := Option.map_eq_some_iff.mp hrest
        obtain ⟨-, r, hr, hconsistent⟩ := htracked
        have hid : c.watch.req.jobId = s.jobId := (hconsistent.sound c hc).jobId
        refine ⟨h.job, h.updates, fun c' hc' => ?_, h.fetches⟩
        obtain rfl := Option.some.inj hc'
        exact (h.stream c hc).step (hid ▸ hr) (hrows _ _ hr) hw
  | deliver =>
      obtain ⟨c, hc, hrest⟩ := Option.bind_eq_some_iff.mp hstep
      obtain ⟨u, hu, rfl⟩ := Option.map_eq_some_iff.mp hrest
      exact h.deliver hc hu
  | reconnect =>
      obtain ⟨c, hc, hrest⟩ := Option.bind_eq_some_iff.mp hstep
      split at hrest
      · obtain rfl := Option.some.inj hrest
        refine ⟨h.job, h.updates, fun c' hc' => ?_, h.fetches⟩
        obtain rfl := Option.some.inj hc'
        exact watchMatches_start s.jobId
      · cases hrest
  | effect =>
      simp only [LiveUpdates.step] at hstep
      split at hstep
      · cases hstep
      · obtain rfl := Option.some.inj hstep
        exact h.effect _
  | read i =>
      simp only [LiveUpdates.step] at hstep
      split at hstep
      · cases hstep
      · obtain ⟨row, hrow, hanswered⟩ := Option.bind_eq_some_iff.mp hstep
        refine h.answered (fun status hstatus => ?_) hanswered
        obtain rfl := Except.ok.inj hstatus
        exact hrows _ _ hrow
  | reject i message => exact h.answered (fun _ hstatus => by cases hstatus) hstep
  | settle i =>
      simp only [LiveUpdates.step] at hstep
      split at hstep
      · next first answer hf =>
          obtain rfl := Option.some.inj hstep
          refine h.settled fun status hstatus => ?_
          exact h.fetches _ (List.mem_of_getElem? hf) status (congrArg some hstatus)
      · cases hstep

end Steps

/-- The page of a job is opened in a system that began on freshly migrated tables. -/
def Begins (s : State) : Prop :=
  ∃ sys jobId r, Reachable Migrated Step.step Anything sys ∧
    sys.db.jobs.byId jobId = some r ∧ s = mounted sys jobId

private theorem opens_of_begins {s : State} (h : Begins s) : Opens s := by
  obtain ⟨sys, jobId, r, hreach, hr, rfl⟩ := h
  exact ⟨sys, jobId, r, cold_of_migrated hreach, hr, rfl⟩

private theorem pageMatches_mounted (sys : Step.State) (jobId : String) :
    PageMatches (mounted sys jobId) where
  job job hjob := absurd hjob (Option.not_mem_none job)
  updates u hu := absurd hu List.not_mem_nil
  stream c hc := absurd hc (Option.not_mem_none c)
  fetches f hf status hanswer := by
    obtain rfl := List.mem_singleton.mp hf
    cases hanswer

private theorem pageMatches_of_reachable {s : State}
    (h : Reachable Begins step (fun _ _ => True) s) : PageMatches s := by
  refine (h.invariant (I := fun s => Reachable Migrated Step.step Anything s.sys ∧ Tracked s ∧
    PageMatches s) ?_ ?_).2.2
  · intro s hbegins
    have htracked := tracked_of_opens (opens_of_begins hbegins)
    obtain ⟨sys, jobId, r, hreach, -, rfl⟩ := hbegins
    exact ⟨hreach, htracked, pageMatches_mounted sys jobId⟩
  · rintro s a t ⟨hreach, htracked, hmatches⟩ - hstep
    refine ⟨?_, tracked_of_step htracked hstep,
      hmatches.step htracked (rowsMatch_of_reachable hreach) hstep⟩
    cases moves_of_step hstep with
    | process a sys hsys => exact hreach.next trivial hsys
    | watch => exact hreach
    | deliver => exact hreach
    | aside _ _ _ hsys => exact hsys ▸ hreach

def Opened (w : WirePage.State) : Prop :=
  ∃ sys jobId r, Reachable Migrated Step.step Anything sys ∧
    sys.db.jobs.byId jobId = some r ∧ w = WirePage.mounted sys jobId

section Runs

variable {sse : String → String → List Char} {engine : Engine} {w : WirePage.State}

private theorem matched_page (hsse : WritesUpdates sse)
    (h : Reachable Opened (WirePage.step sse engine) (fun _ _ => True) w) :
    ∃ s, PageMatches s ∧ WirePage.Refines sse engine w s := by
  have hstart : ∀ w, Opened w → ∃ s, Begins s ∧ WirePage.Refines sse engine w s := by
    rintro _ ⟨sys, jobId, r, hreach, hr, rfl⟩
    have hopens : WirePage.Opens (WirePage.mounted sys jobId) :=
      ⟨sys, jobId, r, cold_of_migrated hreach, hr, rfl⟩
    obtain ⟨s, ⟨sys', jobId', r', -, hr', rfl⟩, hrefines⟩ :
        ∃ s, Opens s ∧ WirePage.Refines sse engine (WirePage.mounted sys jobId) s :=
      WirePage.refines_of_opens hopens
    obtain rfl : sys' = sys := hrefines.sys
    exact ⟨_, ⟨_, _, r', hreach, hr', rfl⟩, hrefines⟩
  obtain ⟨s, hreach, hrefines⟩ := Reachable.simulated hstart
    (fun _ _ _ _ hrefines _ hstep =>
      WirePage.follows_of_step hsse hrefines (False.elim : False → _) hstep) h
  exact ⟨s, pageMatches_of_reachable (hreach.mono fun _ _ _ => trivial), hrefines⟩

/-- Whatever fails, and however the text of the streams is cut up: the two progress bars of
the page never show a part of a job. They wait as long as the job shown is going on, also
when its videos are being inserted, and are full from the moment its state is terminal,
also when it is dead; the two counts are equal, and zero unless the job is done; and so it
is in every line of the live updates. -/
theorem bars_show_the_end (hsse : WritesUpdates sse)
    (h : Reachable Opened (WirePage.step sse engine) (fun _ _ => True) w) :
    (∀ job ∈ w.view.job,
      insertedBar job = fetchedBar job ∧
      fetchedBar job =
        (if isTerminalState job = true then .progress (ofInt 100) else .waiting) ∧
      (countsRow job).1 = (countsRow job).2 ∧
      (numberIn (job "state") ≠ some 1 → countsRow job = (0, 0))) ∧
    ∀ u ∈ w.view.updates,
      (updateLine u).2 = (updateLine u).1 ∧
      (numberIn (u "state") ≠ some 1 → (updateLine u).1 = none) := by
  obtain ⟨s, hmatches, hrefines⟩ := matched_page hsse h
  constructor
  · intro job hjob
    have hpage := hrefines.page.job
    rw [show w.view.job = some job from hjob] at hpage
    obtain ⟨status, hstatus, hshows⟩ := WirePage.rel_some hpage
    have hmatched := hmatches.job status hstatus
    obtain ⟨hsame, hfull⟩ := bars_of_matched hshows hmatched
    rw [← isTerminalState_status hshows] at hfull
    exact ⟨hsame, hfull, countsRow_of_matched hshows hmatched⟩
  · intro u hu
    obtain ⟨i, hi⟩ := List.mem_iff_getElem?.mp hu
    obtain ⟨m, hm, hshows⟩ := WirePage.forall₂_getElem hrefines.page.updates hi
    exact updateLine_of_matched hshows (hmatches.updates m (List.mem_of_getElem? hm))

end Runs

/-- A worker runs the job, and the page loads it then. -/
def oneVideo : List WirePage.Act :=
  [.process (.call 0 (.send Base.Calendar.Time.zero)), .process (.receive 0),
    .process (.work 0 {}),
    .process (.work 0
      { get := fun _ => .response 200 "\x7b\"items\":[\x7b\"id\":\"v\"\x7d]\x7d" }),
    .process (.work 0 {}), .process (.work 0 {}), .read 0, .settle 0]

def loadedPage : WirePage.State :=
  (run (WirePage.step WirePage.ginEvent browser) WirePage.opened oneVideo).getD WirePage.opened

private theorem oneVideo_runs :
    (run (WirePage.step WirePage.ginEvent browser) WirePage.opened oneVideo).isSome = true ∧
      loadedPage.view.job.map (fun job => (countsRow job, isTerminalState job)) =
        some ((1, 1), true) := by
  decide +kernel

private theorem loadedPage_reachable :
    Reachable Opened (WirePage.step WirePage.ginEvent browser) (fun _ _ => True) loadedPage := by
  have hopened : Opened WirePage.opened := by
    obtain ⟨r, hr⟩ : ∃ r, ExactlyOnce.submitted.db.jobs.byId "job-1" = some r := ⟨_, rfl⟩
    exact ⟨_, _, r, ExactlyOnce.submitted_reachable.mono fun _ _ _ => trivial, hr, rfl⟩
  exact .of_run hopened (run_eq_getD oneVideo_runs.1 WirePage.opened) (meets_true _ _)

theorem bars_show_the_end_loadedPage :
    ∃ job, loadedPage.view.job = some job ∧ countsRow job = (1, 1) ∧
      fetchedBar job = .progress (ofInt 100) ∧ insertedBar job = .progress (ofInt 100) := by
  obtain ⟨job, hjob, hshown⟩ := Option.map_eq_some_iff.mp oneVideo_runs.2
  obtain ⟨hcounts, hterminal⟩ := Prod.mk.inj hshown
  obtain ⟨hsame, hfull, -⟩ :=
    (bars_show_the_end WirePage.ginEvent_writes loadedPage_reachable).1 job hjob
  rw [if_pos hterminal] at hfull
  exact ⟨job, hjob, hcounts, hfull, hsame.trans hfull⟩

end TrendingPipeline.System.Progress
