/- Unit: TrendingPipeline/System/PageRest
   source: frontend/components/job-detail.tsx, backend/api/server.go
   digest: What the job page shows when nothing of it goes on. -/

import TrendingPipeline.System.WirePage

set_option autoImplicit false
set_option relaxedAutoImplicit false

namespace TrendingPipeline.System.PageRest

open TrendingPipeline.Base.Calendar (Time)
open TrendingPipeline.Base.Runs
open TrendingPipeline.Etl.WatchJob (isTerminal isTerminal_iff rank_le scanJobStatus stateOf
  stateOf_terminal)
open TrendingPipeline.Etl.Responses (jobStatus)
open TrendingPipeline.Frontend.JobDetail
open TrendingPipeline.Frontend.JobView (Shows)
open TrendingPipeline.Frontend.JobsApi (Engine browser)
open TrendingPipeline.Frontend.WatchJob (WritesUpdates)
open TrendingPipeline.Proto.Messages (JobStatus JobUpdate)
open TrendingPipeline.Store.Statements (getJobByID)
open TrendingPipeline.Store.Tables (JobRow)
open TrendingPipeline.System.LiveUpdates

/-- A load against the row: it is sound to show what it settles with. -/
structure Sound (r : JobRow) (f : Fetch) : Prop where
  refetch : f.first = false → r.state.terminal = true
  answer : ∀ a ∈ f.answer, ∃ status, a = .ok status ∧
    (f.first = false → isTerminal status.state = true) ∧
    (isTerminal status.state = true → status = scanJobStatus r)

structure Current (s : State) (r : JobRow) : Prop where
  deps : ∀ st ∈ s.deps, isTerminal st = false → s.stream ≠ none
  loads : s.page.job = none → ∃ f ∈ s.fetches, f.first = true
  streams : s.stream ≠ none → s.page.job ≠ none
  refetches : (∃ f ∈ s.fetches, f.first = false) → s.page.job ≠ none
  fetches : ∀ f ∈ s.fetches, Sound r f
  job : ∀ job ∈ s.page.job, isTerminal job.state = true →
    job = scanJobStatus r ∨ ∃ f ∈ s.fetches, f.first = false
  loaded : s.page.job ≠ none → s.page.loading = false
  error : s.page.error = none
  idle : s.stream = none → s.page.liveConnected = false

/-- The page agrees with the process, and with the row it reads. -/
def Kept (s : State) : Prop :=
  Tracked s ∧ ∀ r, s.sys.db.jobs.byId s.jobId = some r → Current s r

variable {s t : State} {r r' : JobRow}

private theorem terminal_of_scan {status : JobStatus} (h : status = scanJobStatus r)
    (hterminal : isTerminal status.state = true) : r.state.terminal = true := by
  rw [h] at hterminal
  exact (stateOf_terminal r).symm.trans hterminal

theorem Sound.keep (hrow : r.state.terminal = true → r' = r) {f : Fetch} (h : Sound r f) :
    Sound r' f where
  refetch hfirst := by
    have hterminal := h.refetch hfirst
    rw [hrow hterminal]
    exact hterminal
  answer a ha := by
    obtain ⟨status, rfl, hdone, hread⟩ := h.answer a ha
    refine ⟨status, rfl, hdone, fun hterminal => ?_⟩
    have hscan := hread hterminal
    rw [hrow (terminal_of_scan hscan hterminal)]
    exact hscan

theorem Current.keep (h : Current s r) (hrow : r.state.terminal = true → r' = r) :
    Current s r' where
  deps := h.deps
  loads := h.loads
  streams := h.streams
  refetches := h.refetches
  fetches f hf := (h.fetches f hf).keep hrow
  job job hjob hterminal := by
    rcases h.job job hjob hterminal with hscan | hload
    · rw [hrow (terminal_of_scan hscan hterminal)]
      exact .inl hscan
    · exact .inr hload
  loaded := h.loaded
  error := h.error
  idle := h.idle

/-- The same job, and the same loads on their way. -/
structure Same (s t : State) : Prop where
  job : t.page.job = s.page.job
  loading : t.page.loading = s.page.loading
  error : t.page.error = s.page.error
  fetches : t.fetches = s.fetches

theorem Current.same (h : Current s r) (hsame : Same s t)
    (hdeps : ∀ st ∈ t.deps, isTerminal st = false → t.stream ≠ none)
    (hstreams : t.stream ≠ none → t.page.job ≠ none)
    (hidle : t.stream = none → t.page.liveConnected = false) : Current t r where
  deps := hdeps
  loads hjob := by
    rw [hsame.job] at hjob
    rw [hsame.fetches]
    exact h.loads hjob
  streams := hstreams
  refetches hload := by
    rw [hsame.fetches] at hload
    rw [hsame.job]
    exact h.refetches hload
  fetches f hf := h.fetches f (hsame.fetches ▸ hf)
  job job hjob hterminal := by
    rw [hsame.job] at hjob
    rw [hsame.fetches]
    exact h.job job hjob hterminal
  loaded hjob := by
    rw [hsame.job] at hjob
    rw [hsame.loading]
    exact h.loaded hjob
  error := hsame.error.trans h.error
  idle := hidle

private theorem current_start {sys : Step.State} {jobId : String} : Current
    (mounted sys jobId) r where
  deps st hst := absurd hst (Option.not_mem_none st)
  loads _ := ⟨_, List.mem_cons_self, rfl⟩
  streams hopen := absurd rfl hopen
  refetches := by
    rintro ⟨f, hf, hfirst⟩
    obtain rfl := List.mem_singleton.mp hf
    cases hfirst
  fetches f hf := by
    obtain rfl := List.mem_singleton.mp hf
    exact
      { refetch := fun hfirst => by cases hfirst
        answer := fun a ha => absurd ha (Option.not_mem_none a) }
  job job hjob := absurd hjob (Option.not_mem_none job)
  loaded hjob := absurd rfl hjob
  error := rfl
  idle _ := rfl

private theorem terminal_of_next {c : LiveUpdates.Stream} {u : JobUpdate} (h : Consistent s r)
    (hstream : s.stream = some c) (hnext : c.next = some u)
    (hterminal : isTerminal u.state = true) :
    r.state.terminal = true := by
  have hsent := feed_sent_of_next hstream hnext r
  have hdue : u.state ∈ (feed s r).due := by
    rw [Base.Resubscribing.Feed.due, hsent]
    exact List.mem_append_left _ List.mem_cons_self
  have hcurrent := h.orderly.due_current u.state hdue
  rw [feed_current] at hcurrent
  rw [← stateOf_terminal]
  rcases hcurrent with hsame | hbefore
  · rw [← hsame]
    exact hterminal
  · have htop := (isTerminal_iff u.state).mp hterminal
    have hle := rank_le (stateOf r)
    unfold Etl.WatchJob.Before at hbefore
    omega

/-- The fetches after an update: those before it, and a further load if it ended the job. -/
theorem mem_fetches_onUpdate {c : LiveUpdates.Stream} {u : JobUpdate} {f : Fetch} :
    f ∈ (s.onUpdate c u).fetches ↔
      f ∈ s.fetches ∨ isTerminal u.state = true ∧ f = { first := false } := by
  rw [State.onUpdate]
  dsimp only
  rw [isTerminalState_number]
  by_cases hterminal : isTerminal u.state = true
  · rw [if_pos hterminal, List.mem_append, List.mem_singleton]
    simp only [hterminal, true_and]
  · rw [if_neg hterminal]
    simp only [hterminal, Bool.false_eq_true, false_and, or_false]

theorem Current.deliver {c : LiveUpdates.Stream} {u : JobUpdate} (h : Current s r)
    (hstream : s.stream = some c)
    (hrow : isTerminal u.state = true → r.state.terminal = true) :
    Current (s.onUpdate c u) r where
  deps _ _ _ hnone := by cases hnone
  loads hjob := by
    obtain ⟨f, hf, hfirst⟩ := h.loads (Option.map_eq_none_iff.mp hjob)
    exact ⟨f, mem_fetches_onUpdate.mpr (.inl hf), hfirst⟩
  streams _ hnone := h.streams (hstream ▸ Option.some_ne_none c) (Option.map_eq_none_iff.mp hnone)
  refetches _ hnone :=
    h.streams (hstream ▸ Option.some_ne_none c) (Option.map_eq_none_iff.mp hnone)
  fetches f hf := by
    rcases mem_fetches_onUpdate.mp hf with hold | ⟨hterminal, rfl⟩
    · exact h.fetches f hold
    · exact
        { refetch := fun _ => hrow hterminal
          answer := fun a ha => absurd ha (Option.not_mem_none a) }
  job job hjob hterminal := by
    obtain ⟨prev, -, rfl⟩ := Option.map_eq_some_iff.mp hjob
    exact .inr ⟨_, mem_fetches_onUpdate.mpr (.inr ⟨hterminal, rfl⟩), rfl⟩
  loaded hjob := h.loaded fun hnone => hjob (Option.map_eq_none_iff.mpr hnone)
  error := h.error
  idle hnone := by cases hnone

private theorem Current.restreamed (h : Current s r) {c : LiveUpdates.Stream}
    (hsame : Same s t) (hstream : t.stream = some c) (hjob : t.page.job ≠ none) :
    Current t r := by
  have hopen : t.stream ≠ none := by
    rw [hstream]
    exact Option.some_ne_none c
  exact h.same hsame (fun _ _ _ => hopen) (fun _ => hjob) fun hnone => absurd hnone hopen

theorem same_cleanup (s : State) : Same s s.cleanup := by
  unfold State.cleanup
  split
  · exact ⟨rfl, rfl, rfl, rfl⟩
  · exact ⟨rfl, rfl, rfl, rfl⟩

private theorem idle_cleanup (h : Current s r) : s.cleanup.page.liveConnected = false := by
  unfold State.cleanup
  split
  · rfl
  · next hnone => exact h.idle hnone

theorem Current.effect (h : Current s r) :
    Current { s.cleanup.subscribe with deps := s.page.job.map (·.state) } r := by
  have hclean := same_cleanup s
  have hidle := idle_cleanup h
  have hnone : s.cleanup.stream = none := (cleanup_cases s).2.2.2
  rw [← hclean.job]
  unfold State.subscribe
  cases hjob : s.cleanup.page.job with
  | none =>
      refine h.same ⟨hclean.job, hclean.loading, hclean.error, hclean.fetches⟩ ?_
        (fun hopen => absurd hnone hopen) fun _ => hidle
      intro st hst
      cases hst
  | some job =>
      dsimp only
      rw [isTerminalState_number]
      split
      · next hterminal =>
          refine h.same ⟨hclean.job, hclean.loading, hclean.error, hclean.fetches⟩ ?_
            (fun hopen => absurd hnone hopen) fun _ => hidle
          intro st hst hopen
          obtain rfl := Option.some.inj hst
          rw [hterminal] at hopen
          cases hopen
      · refine h.restreamed ⟨hclean.job, hclean.loading, hclean.error, hclean.fetches⟩ rfl ?_
        intro hnone
        rw [hjob] at hnone
        cases hnone

private theorem firsts_set {fetches : List Fetch} {i : ℕ} {first : Bool} {old : Option Loaded}
    (hf : fetches[i]? = some ⟨first, old⟩) (answer : Option Loaded) (b : Bool) :
    (∃ f ∈ fetches.set i ⟨first, answer⟩, f.first = b) ↔ ∃ f ∈ fetches, f.first = b := by
  have hsame : (fetches.set i ⟨first, answer⟩).map Fetch.first = fetches.map Fetch.first := by
    have hhere : (fetches.map Fetch.first)[i]? = some first := by
      rw [List.getElem?_map, hf, Option.map_some]
    obtain ⟨hi, hvalue⟩ := List.getElem?_eq_some_iff.mp hhere
    rw [List.map_set, ← hvalue]
    exact List.set_getElem_self hi
  rw [← List.mem_map, ← List.mem_map, hsame]

theorem Current.read (h : Current s r) {i : ℕ}
    (hstep : s.answered i (.ok (scanJobStatus r)) = some t) : Current t r := by
  unfold State.answered at hstep
  split at hstep
  · next first hf =>
      obtain rfl := Option.some.inj hstep
      have hold := h.fetches _ (List.mem_of_getElem? hf)
      have hnew : Sound r ⟨first, some (.ok (scanJobStatus r))⟩ :=
        { refetch := hold.refetch
          answer := by
            intro a ha
            obtain rfl := Option.some.inj ha
            refine ⟨scanJobStatus r, rfl, fun hfirst => ?_, fun _ => rfl⟩
            exact (stateOf_terminal r).trans (hold.refetch hfirst) }
      have hfirsts := firsts_set hf (some (.ok (scanJobStatus r)))
      exact
        { deps := h.deps
          loads := fun hjob => (hfirsts true).mpr (h.loads hjob)
          streams := h.streams
          refetches := fun hload => h.refetches ((hfirsts false).mp hload)
          fetches := fun f hmem => (List.mem_or_eq_of_mem_set hmem).elim (h.fetches f)
            fun heq => heq ▸ hnew
          job := fun job hjob hterminal => (h.job job hjob hterminal).imp_right (hfirsts false).mpr
          loaded := h.loaded
          error := h.error
          idle := h.idle }
  · cases hstep

theorem Current.settle (h : Current s r) {i : ℕ} {f : Fetch} {answer : Loaded}
    (hf : s.fetches[i]? = some f) (hanswer : f.answer = some answer) :
    Current (s.settled i f answer) r := by
  have hsound := h.fetches f (List.mem_of_getElem? hf)
  obtain ⟨status, rfl, hdone, hread⟩ := hsound.answer answer hanswer
  have hjob : (s.settled i f (.ok status)).page.job = some status := by
    unfold State.settled
    dsimp only
    split <;> rfl
  have hsome : (s.settled i f (.ok status)).page.job ≠ none := by
    rw [hjob]
    exact Option.some_ne_none status
  have hloading : (s.settled i f (.ok status)).page.loading = false := by
    unfold State.settled
    dsimp only
    split
    · rfl
    · next hlater =>
        exact h.loaded
          (h.refetches ⟨f, List.mem_of_getElem? hf, Bool.eq_false_of_not_eq_true hlater⟩)
  have herror : (s.settled i f (.ok status)).page.error = s.page.error := by
    unfold State.settled
    dsimp only
    split <;> rfl
  have hlive : (s.settled i f (.ok status)).page.liveConnected = s.page.liveConnected := by
    unfold State.settled
    dsimp only
    split <;> rfl
  exact
    { deps := h.deps
      loads := fun hnone => absurd hnone hsome
      streams := fun _ => hsome
      refetches := fun _ => hsome
      fetches := fun g hg => h.fetches g (List.mem_of_mem_eraseIdx hg)
      job := by
        intro job hshown hterminal
        obtain rfl := Option.some.inj (hjob.symm.trans hshown)
        exact .inl (hread hterminal)
      loaded := fun _ => hloading
      error := herror.trans h.error
      idle := fun hnone => hlive.trans (h.idle hnone) }

private theorem kept_of_opens (h : Opens s) : Kept s := by
  refine ⟨tracked_of_opens h, fun r _ => ?_⟩
  obtain ⟨sys, jobId, -, -, -, rfl⟩ := h
  exact current_start

private theorem kept_of_same (h : Kept s) (ht : Tracked t) (hsys : t.sys = s.sys)
    (hid : t.jobId = s.jobId) (hstep : ∀ r, s.sys.db.jobs.byId s.jobId = some r →
      Consistent s r → Current s r → Current t r) : Kept t := by
  refine ⟨ht, fun r hr => ?_⟩
  obtain ⟨⟨-, r₀, hr₀, hconsistent⟩, hcurrent⟩ := h
  rw [hsys, hid, hr₀] at hr
  obtain rfl := Option.some.inj hr
  exact hstep r₀ hr₀ hconsistent (hcurrent r₀ hr₀)

private theorem kept_of_step {a : Act} (h : Kept s) (ha : LiveUpdates.Undisturbed s a)
    (hstep : LiveUpdates.step s a = some t) : Kept t := by
  have htracked := tracked_of_step h.1 hstep
  cases a with
  | process a =>
      simp only [LiveUpdates.step] at hstep
      split at hstep
      · cases hstep
      · obtain ⟨sys, hsys, rfl⟩ := Option.map_eq_some_iff.mp hstep
        obtain ⟨⟨hreach, r, hr, -⟩, hcurrent⟩ := h
        obtain ⟨r', hr', -, hend⟩ := Watching.row_of_process hreach hr hsys
        refine ⟨htracked, fun r'' hr'' => ?_⟩
        obtain rfl := Option.some.inj (hr'.symm.trans hr'')
        have hnew := (hcurrent r hr).keep hend
        have hstream : (s.withSys sys).stream = none ↔ s.stream = none :=
          Option.map_eq_none_iff
        refine hnew.same ⟨rfl, rfl, rfl, rfl⟩ ?_ ?_ ?_
        · exact fun st hst hopen hnone => hnew.deps st hst hopen (hstream.mp hnone)
        · exact fun hopen => hnew.streams fun hnone => hopen (hstream.mpr hnone)
        · exact fun hnone => hnew.idle (hstream.mp hnone)
  | watch ev =>
      obtain ⟨c, hc, hrest⟩ := Option.bind_eq_some_iff.mp hstep
      split at hrest
      · cases hrest
      · obtain ⟨w, -, rfl⟩ := Option.map_eq_some_iff.mp hrest
        refine kept_of_same h htracked rfl rfl fun r _ _ hcurrent => ?_
        exact hcurrent.restreamed ⟨rfl, rfl, rfl, rfl⟩ rfl
          (hcurrent.streams (hc ▸ Option.some_ne_none c))
  | deliver =>
      obtain ⟨c, hc, hrest⟩ := Option.bind_eq_some_iff.mp hstep
      obtain ⟨u, hu, rfl⟩ := Option.map_eq_some_iff.mp hrest
      refine kept_of_same h htracked rfl rfl fun r _ hconsistent hcurrent => ?_
      exact hcurrent.deliver hc (terminal_of_next hconsistent hc hu)
  | reconnect =>
      obtain ⟨c, hc, hrest⟩ := Option.bind_eq_some_iff.mp hstep
      split at hrest
      · obtain rfl := Option.some.inj hrest
        refine kept_of_same h htracked rfl rfl fun r _ _ hcurrent => ?_
        exact hcurrent.restreamed ⟨rfl, rfl, rfl, rfl⟩ rfl
          (hcurrent.streams (hc ▸ Option.some_ne_none c))
      · cases hrest
  | effect =>
      simp only [LiveUpdates.step] at hstep
      split at hstep
      · cases hstep
      · obtain rfl := Option.some.inj hstep
        obtain ⟨hsys, hid, -⟩ := cleanup_cases s
        obtain ⟨hsys', hid', -⟩ := subscribe_cases s.cleanup
        exact kept_of_same h htracked (hsys'.trans hsys) (hid'.trans hid)
          fun r _ _ hcurrent => hcurrent.effect
  | read i =>
      simp only [LiveUpdates.step] at hstep
      split at hstep
      · cases hstep
      · obtain ⟨row, hrow, hanswered⟩ := Option.bind_eq_some_iff.mp hstep
        have hsame : t.sys = s.sys ∧ t.jobId = s.jobId := by
          unfold State.answered at hanswered
          split at hanswered
          · obtain rfl := Option.some.inj hanswered
            exact ⟨rfl, rfl⟩
          · cases hanswered
        refine kept_of_same h htracked hsame.1 hsame.2 fun r hr _ hcurrent => ?_
        obtain rfl : row = r := Option.some.inj (hrow.symm.trans hr)
        exact hcurrent.read hanswered
  | reject i message => exact ha.elim
  | settle i =>
      simp only [LiveUpdates.step] at hstep
      split at hstep
      · next first answer hf =>
          obtain rfl := Option.some.inj hstep
          exact kept_of_same h htracked rfl rfl fun r _ _ hcurrent => hcurrent.settle hf rfl
      · cases hstep

private theorem kept_of_reachable
    (h : Reachable Opens LiveUpdates.step (fun s a => True → LiveUpdates.Undisturbed s a) s) :
    Kept s :=
  h.invariant (fun _ => kept_of_opens) fun _ _ _ hkept ha hstep =>
    kept_of_step hkept (ha trivial) hstep

/-- With no stream and no load, and after its effect, the page shows the row of a job that
has ended. -/
private theorem shown_at_rest (h : Kept s) (hstream : s.stream = none) (hfetches : s.fetches = [])
    (hkey : s.page.job.map (·.state) = s.deps) :
    ∃ r, s.sys.db.jobs.byId s.jobId = some r ∧ r.state.terminal = true ∧
      s.page.job = some (scanJobStatus r) ∧ s.page.loading = false ∧ s.page.error = none ∧
      s.page.liveConnected = false := by
  obtain ⟨⟨-, r, hr, -⟩, hcurrent⟩ := h
  have hcurrent := hcurrent r hr
  cases hjob : s.page.job with
  | none =>
      obtain ⟨f, hf, -⟩ := hcurrent.loads hjob
      rw [hfetches] at hf
      cases hf
  | some job =>
      have hterminal : isTerminal job.state = true := by
        by_contra hopen
        refine hcurrent.deps job.state ?_ (Bool.eq_false_of_not_eq_true hopen) hstream
        rw [← hkey, hjob]
        rfl
      have hscan : job = scanJobStatus r := by
        rcases hcurrent.job job hjob hterminal with hscan | ⟨f, hf, -⟩
        · exact hscan
        · rw [hfetches] at hf
          cases hf
      have hsome : s.page.job ≠ none := by
        rw [hjob]
        exact Option.some_ne_none job
      exact ⟨r, hr, terminal_of_scan hscan hterminal, congrArg some hscan,
        hcurrent.loaded hsome, hcurrent.error, hcurrent.idle hstream⟩

section Browser

variable {sse : String → String → List Char} {engine : Engine} {w : WirePage.State}

/-- No step of the page in the browser is possible except by a failure. -/
def AtRest (sse : String → String → List Char) (engine : Engine) (w : WirePage.State) : Prop :=
  ∀ a, WirePage.Undisturbed w a → (∀ b, a ≠ .process b) → WirePage.step sse engine w a = none

private theorem stream_at_rest (h : AtRest sse engine w) : w.stream = none := by
  have hnone := h (.arrive 0) trivial fun _ hprocess => by cases hprocess
  exact Option.map_eq_none_iff.mp hnone

private theorem key_at_rest (h : AtRest sse engine w) : w.key = w.deps := by
  by_contra hne
  have hnone := h .effect trivial fun _ hprocess => by cases hprocess
  rw [WirePage.step, if_neg hne] at hnone
  cases hnone

private theorem loads_at_rest (h : AtRest sse engine w) (hserves : w.sys.phase ≠ .down)
    (hrow : w.sys.db.jobs.byId w.jobId = some r) : w.loads = [] := by
  cases hloads : w.loads with
  | nil => rfl
  | cons l loads =>
      obtain ⟨first, answer⟩ := l
      cases answer with
      | none =>
          have hnone := h (.read 0) trivial fun _ hprocess => by cases hprocess
          have hfound : getJobByID w.sys.db w.jobId = some r := hrow
          simp [WirePage.step, hserves, hfound, WirePage.State.answered, hloads] at hnone
      | some answer =>
          have hnone := h (.settle 0) trivial fun _ hprocess => by cases hprocess
          simp [WirePage.step, hloads] at hnone

private theorem atRest_of_idle (hstream : w.stream = none) (hloads : w.loads = [])
    (hkey : w.key = w.deps) :
    AtRest sse engine w := by
  intro a ha hprocess
  cases a with
  | process b => exact absurd rfl (hprocess b)
  | watch ev =>
      rw [WirePage.step, hstream]
      rfl
  | arrive n =>
      rw [WirePage.step, hstream]
      rfl
  | reconnect =>
      rw [WirePage.step, hstream]
      rfl
  | effect => rw [WirePage.step, if_pos hkey]
  | read i => simp [WirePage.step, WirePage.State.answered, hloads]
  | refuse i => exact ha.elim
  | reject i err => exact ha.elim
  | settle i => simp [WirePage.step, hloads]

/-- Where nothing has failed between the page and the row, the page in the browser is at rest
only on a job that has ended: whatever arrived in whatever pieces and order before, it shows
the row as it is and stays. -/
theorem page_rests (hsse : WritesUpdates sse)
    (h : Reachable WirePage.Opens (WirePage.step sse engine) WirePage.Undisturbed w)
    (hserves : w.sys.phase ≠ .down) (hrest : AtRest sse engine w) :
    ∃ r o, w.sys.db.jobs.byId w.jobId = some r ∧ r.state.terminal = true ∧
      w.view.job = some o ∧ Shows jobStatus o (scanJobStatus r) ∧ w.view.loading = false ∧
      w.view.error = none ∧ w.view.liveConnected = false ∧ w.stream = none ∧ w.loads = [] := by
  have hcalm : Reachable WirePage.Opens (WirePage.step sse engine)
      (fun w a => True → WirePage.Undisturbed w a) w := h.mono fun _ _ ha _ => ha
  obtain ⟨s, hreach, hrefines⟩ := WirePage.refines_of_reachable hsse hcalm
  have hkept := kept_of_reachable hreach
  obtain ⟨-, r₀, hr₀, -⟩ := hkept.1
  rw [hrefines.sys, hrefines.jobId] at hr₀
  have hstream := stream_at_rest hrest
  have hloads := loads_at_rest hrest hserves hr₀
  have hsstream : s.stream = none := by
    have hrel := hrefines.stream
    rw [hstream] at hrel
    exact WirePage.rel_none hrel
  have hfetches : s.fetches = [] := by
    have hrel := hrefines.loads
    rw [hloads] at hrel
    exact List.forall₂_nil_left_iff.mp hrel
  have hkey := (WirePage.key_eq_deps_iff hrefines).mp (key_at_rest hrest)
  obtain ⟨r, hr, hterminal, hjob, hloading, herror, hlive⟩ :=
    shown_at_rest hkept hsstream hfetches hkey
  rw [hrefines.sys, hrefines.jobId] at hr
  have hpage := hrefines.page
  have hshown := hpage.job
  rw [hjob] at hshown
  cases hview : w.view.job with
  | none =>
      rw [hview] at hshown
      cases hshown
  | some o =>
      rw [hview] at hshown
      cases hshown with
      | some hshows =>
          exact ⟨r, o, hr, hterminal, rfl, hshows, hpage.loading.trans hloading,
            hpage.error.trans herror, hpage.liveConnected.trans hlive, hstream, hloads⟩

end Browser

def poll : List WirePage.Act :=
  [.watch (.check false), .watch (.read true), .watch (.send true Time.zero), .arrive 1000]

/-- The page is opened while the job is queued; a worker finishes it between two polls. -/
def wholeRun : List WirePage.Act :=
  [.read 0, .settle 0, .effect] ++ poll ++
    [.process (.call 0 (.send Time.zero)), .process (.receive 0), .process (.work 0 {}),
      .process (.work 0 { get := fun _ => .response 200 "\x7b\x7d" }), .process (.work 0 {}),
      .watch .wake] ++ poll ++ [.effect, .read 0, .settle 0]

def wholeEnd : WirePage.State :=
  (run (WirePage.step WirePage.ginEvent browser) WirePage.opened wholeRun).getD WirePage.opened

private theorem run_wholeRun :
    (run (WirePage.step WirePage.ginEvent browser) WirePage.opened wholeRun).isSome = true ∧
      Meets (WirePage.step WirePage.ginEvent browser) WirePage.Undisturbed WirePage.opened
        wholeRun ∧
      wholeEnd.stream.isNone = true ∧ wholeEnd.loads.isEmpty = true ∧
      wholeEnd.key = wholeEnd.deps ∧ wholeEnd.sys.phase ≠ .down := by
  decide +kernel

private theorem wholeEnd_reachable :
    Reachable WirePage.Opens (WirePage.step WirePage.ginEvent browser) WirePage.Undisturbed
      wholeEnd := by
  obtain ⟨hsome, hmeets, -⟩ := run_wholeRun
  exact .of_run WirePage.opens_opened (run_eq_getD hsome WirePage.opened) hmeets

private theorem wholeEnd_atRest : AtRest WirePage.ginEvent browser wholeEnd := by
  obtain ⟨-, -, hstream, hloads, hkey, -⟩ := run_wholeRun
  exact atRest_of_idle (Option.isNone_iff_eq_none.mp hstream) (List.isEmpty_iff.mp hloads) hkey

theorem page_rests_wholeEnd :
    ∃ r o, wholeEnd.sys.db.jobs.byId wholeEnd.jobId = some r ∧ r.state.terminal = true ∧
      wholeEnd.view.job = some o ∧ Shows jobStatus o (scanJobStatus r) := by
  obtain ⟨-, -, -, -, -, hserves⟩ := run_wholeRun
  obtain ⟨r, o, hr, hterminal, hjob, hshows, -⟩ :=
    page_rests WirePage.ginEvent_writes wholeEnd_reachable hserves wholeEnd_atRest
  exact ⟨r, o, hr, hterminal, hjob, hshows⟩

end TrendingPipeline.System.PageRest
