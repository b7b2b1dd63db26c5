/- Unit: TrendingPipeline/System/Rounds
   source: frontend/components/jobs-list.tsx, backend/etl/server.go, backend/worker/worker.go
   digest: The overlapping rounds of the jobs list beside the process that runs the jobs. -/

import TrendingPipeline.Base.Snapshots
import TrendingPipeline.Frontend.JobsList
import TrendingPipeline.System.Watching

set_option autoImplicit false
set_option relaxedAutoImplicit false

namespace TrendingPipeline.System.Rounds

open TrendingPipeline.Base.Calendar (Time)
open TrendingPipeline.Base.Runs
open TrendingPipeline.Base.Snapshots (Dated dated_nil)
open TrendingPipeline.Proto.Messages (JobState JobStatus)
open TrendingPipeline.Store.Tables (Db JobRow JobsTable)
open TrendingPipeline.Store.Statements (getJobByID)
open TrendingPipeline.Etl.WatchJob (rank scanJobStatus stateOf)
open TrendingPipeline.Frontend.JobsList
open TrendingPipeline.System.Step (Anything Cold cold_of_migrated)
open TrendingPipeline.System.ExactlyOnce (submitted submitted_reachable)
open TrendingPipeline.System.Watching (row_of_process)

/-- A status as GetJobStatus returns it, with one history field: how many reads there
were before this one. -/
structure Read extends JobStatus where
  instant : ℕ

/-- A getJobStatus of a round, and how it settles once that is decided. -/
structure Request where
  jobId : String
  result : Option (Settled Read) := none

/-- The process; the component's state; the rounds on their way, oldest first; and two
history fields: the values of `jobs` before, and how many reads there were. -/
structure State where
  sys : Step.State
  page : Page Read := {}
  rounds : List (List Request) := []
  earlier : List Read := []
  reads : ℕ := 0

inductive Act
  | process (a : Step.Act)
  /-- the effect or the button calls `fetchJobs(false)`, the interval or the event
  `fetchJobs(true)`; `ids` are those stored then, unless reading them throws -/
  | fetchJobs (silent : Bool) (ids : Option (List String))
  /-- GetJobStatus reads the row for the `k`-th request of the `i`-th round -/
  | read (i k : ℕ)
  | reject (i k : ℕ)
  /-- the requests of the `i`-th round have settled, and it goes on -/
  | resume (i : ℕ) (now : Time)

/-- `setJobs` with other values. -/
def State.withPage (s : State) (page : Page Read) : State :=
  { s with page := page, earlier := s.earlier ++ s.page.jobs }

/-- `fetchJobs` up to its await. -/
def State.fetchJobs (s : State) (silent : Bool) : Option (List String) → State
  | none => { s with page := s.page.marked silent }
  | some [] => s.withPage (s.page.marked silent).cleared
  | some ids =>
      { s with
        page := s.page.marked silent
        rounds := s.rounds ++ [ids.map fun id => { jobId := id }] }

def State.request (s : State) (i k : ℕ) : Option Request := (s.rounds[i]?).bind (·[k]?)

/-- The request will settle so, unless that was decided before. -/
def State.answered (s : State) (i k : ℕ) (result : Settled Read) : Option State :=
  (s.rounds[i]?).bind fun round =>
    (round[k]?).bind fun q =>
      if q.result.isSome then none
      else some { s with rounds := s.rounds.set i (round.set k { q with result := some result }) }

/-- What `Promise.allSettled` gives once every request has settled. -/
def allSettled (round : List Request) : Option (List (Settled Read)) :=
  if round.all (·.result.isSome) then some (round.filterMap (·.result)) else none

def step (s : State) : Act → Option State
  | .process a => (Step.step s.sys a).map fun t => { s with sys := t }
  | .fetchJobs silent ids =>
      if !silent && s.page.refreshing then none else some (s.fetchJobs silent ids)
  | .read i k =>
      if s.sys.phase = .down then none
      else
        (s.request i k).bind fun q =>
          (getJobByID s.sys.db q.jobId).bind fun row =>
            { s with reads := s.reads + 1 }.answered i k
              (.fulfilled ⟨scanJobStatus row, s.reads⟩)
  | .reject i k => s.answered i k .rejected
  | .resume i now =>
      (s.rounds[i]?).bind fun round =>
        (allSettled round).map fun results =>
          { s with rounds := s.rounds.eraseIdx i }.withPage (s.page.shows results now)

/-- The component is rendered for the first time, and its effects have not run. -/
def Mounts (s : State) : Prop :=
  ∃ sys, Reachable Cold Step.step Anything sys ∧ s = { sys := sys }

def NeverBack (s : State) : Prop :=
  ∀ a ∈ s.earlier, ∀ b ∈ s.page.jobs, a.jobId = b.jobId → rank a.state ≤ rank b.state

def values (round : List Request) : List Read :=
  round.filterMap fun q => q.result.bind Settled.value

/-- For each job that the round brings: a status that was read after the round's and is
or was shown has the same stage. -/
def InOrder (s : State) : Act → Prop
  | .resume i _ =>
      ∀ a ∈ s.earlier ++ s.page.jobs, ∀ b ∈ values ((s.rounds[i]?).getD []),
        a.jobId = b.jobId → b.instant < a.instant → rank a.state = rank b.state
  | .process _ | .fetchJobs _ _ | .read _ _ | .reject _ _ => True

instance (s : State) : Decidable (NeverBack s) :=
  inferInstanceAs (Decidable (∀ a ∈ s.earlier, ∀ b ∈ s.page.jobs, _ → _))

instance (s : State) : ∀ a, Decidable (InOrder s a)
  | .resume i _ =>
      inferInstanceAs (Decidable (∀ a ∈ s.earlier ++ s.page.jobs,
        ∀ b ∈ values ((s.rounds[i]?).getD []), _ → _ → _))
  | .process _ | .fetchJobs _ _ | .read _ _ | .reject _ _ => inferInstanceAs (Decidable True)

/-- The stage of the row of a job, and 0 for want of one. -/
def stage (db : Db) (id : String) : ℕ := (getJobByID db id).elim 0 fun row => rank (stateOf row)

/-- The statuses that are on their way, shown, or were shown. -/
def State.known (s : State) : List Read :=
  s.earlier ++ s.page.jobs ++ s.rounds.flatMap values

/-- The process is where it can get to, and the statuses known agree with its rows. -/
def Tracked (s : State) : Prop :=
  Reachable Cold Step.step Anything s.sys ∧
    Dated (fun a : Read => a.jobId) (fun a => rank a.state) Read.instant (stage s.sys.db) s.reads
      s.known

variable {s t : State}

private theorem stage_of_process {sys sys' : Step.State} {a : Step.Act}
    (h : Reachable Cold Step.step Anything sys) (hstep : Step.step sys a = some sys')
    (id : String) : stage sys.db id ≤ stage sys'.db id := by
  unfold stage getJobByID
  cases hr : sys.db.jobs.byId id with
  | none => exact Nat.zero_le _
  | some r =>
      obtain ⟨r', hr', hmove, -⟩ := row_of_process h hr hstep
      rw [hr', Option.elim_some, Option.elim_some]
      rcases hmove with heq | hbefore
      · rw [stateOf, stateOf, heq]
      · exact Nat.le_of_lt hbefore

private theorem fetched_filterMap (round : List Request) :
    fetched (round.filterMap (·.result)) = values round :=
  List.filterMap_filterMap

theorem settled_values {round : List Request} {results : List (Settled Read)}
    (h : allSettled round = some results) : fetched results = values round := by
  unfold allSettled at h
  split at h
  · obtain rfl := Option.some.inj h
    exact fetched_filterMap round
  · cases h

private theorem values_set {round : List Request} {k : ℕ} {q : Request} {a : Read}
    (ha : a ∈ values (round.set k q)) :
    a ∈ values round ∨ q.result.bind Settled.value = some a := by
  obtain ⟨q', hq', hvalue⟩ := List.mem_filterMap.mp ha
  rcases List.mem_or_eq_of_mem_set hq' with hold | rfl
  · exact .inl (List.mem_filterMap.mpr ⟨q', hold, hvalue⟩)
  · exact .inr hvalue

/-- An answer changes nothing but the rounds, and only its own status is new in them. -/
private theorem answered_cases {i k : ℕ} {result : Settled Read}
    (h : s.answered i k result = some t) :
    ∃ rounds, t = { s with rounds := rounds } ∧
      ∀ a ∈ rounds.flatMap values, a ∈ s.rounds.flatMap values ∨ result.value = some a := by
  obtain ⟨round, hround, hrest⟩ := Option.bind_eq_some_iff.mp h
  obtain ⟨q, -, hanswer⟩ := Option.bind_eq_some_iff.mp hrest
  split at hanswer
  · cases hanswer
  · obtain rfl := Option.some.inj hanswer
    refine ⟨_, rfl, ?_⟩
    intro a ha
    obtain ⟨round', hmem, hvalue⟩ := List.mem_flatMap.mp ha
    rcases List.mem_or_eq_of_mem_set hmem with hold | rfl
    · exact .inl (List.mem_flatMap.mpr ⟨round', hold, hvalue⟩)
    · rcases values_set hvalue with hold | hnew
      · exact .inl (List.mem_flatMap.mpr ⟨round, List.mem_of_getElem? hround, hold⟩)
      · exact .inr hnew

private theorem values_requests (ids : List String) :
    values (ids.map fun id => { jobId := id }) = [] := by
  rw [values, List.filterMap_map]
  exact List.filterMap_eq_nil_iff.mpr fun _ _ => rfl

private theorem known_withPage {page : Page Read} {rounds : List (List Request)}
    (hjobs : ∀ a ∈ page.jobs, a ∈ s.rounds.flatMap values) (hrounds : rounds ⊆ s.rounds) :
    ({ s with rounds := rounds }.withPage page).known ⊆ s.known := by
  intro a ha
  unfold State.known State.withPage at ha
  unfold State.known
  simp only [List.mem_append] at ha ⊢
  rcases ha with (hshown | hjob) | hround
  · exact .inl hshown
  · exact .inr (hjobs a hjob)
  · obtain ⟨round, hmem, hvalue⟩ := List.mem_flatMap.mp hround
    exact .inr (List.mem_flatMap.mpr ⟨round, hrounds hmem, hvalue⟩)

private theorem fetchJobs_eq (s : State) (silent : Bool) (ids : Option (List String)) :
    (s.fetchJobs silent ids).sys = s.sys ∧ (s.fetchJobs silent ids).reads = s.reads := by
  unfold State.fetchJobs
  split <;> exact ⟨rfl, rfl⟩

private theorem known_fetchJobs (s : State) (silent : Bool) (ids : Option (List String)) :
    (s.fetchJobs silent ids).known ⊆ s.known := by
  unfold State.fetchJobs
  split
  · simp [State.known]
  · have hcleared : s.withPage (s.page.marked silent).cleared =
        { s with rounds := s.rounds }.withPage (s.page.marked silent).cleared := rfl
    rw [hcleared]
    exact known_withPage (fun a hnone => absurd hnone List.not_mem_nil) (List.Subset.refl _)
  · simp [State.known, values_requests]

/-- What an action does to the process, to the statuses known, and to the list. -/
inductive Moves (s : State) : Act → State → Prop
  | process (a : Step.Act) (sys : Step.State) : Step.step s.sys a = some sys →
      Moves s (.process a) { s with sys := sys }
  | fetchJobs (silent : Bool) (ids : Option (List String)) :
      Moves s (.fetchJobs silent ids) (s.fetchJobs silent ids)
  | read (i k : ℕ) (row : JobRow) (rounds : List (List Request)) :
      getJobByID s.sys.db row.jobId = some row →
      (∀ a ∈ rounds.flatMap values, a ∈ s.rounds.flatMap values ∨
        a = ⟨scanJobStatus row, s.reads⟩) →
      Moves s (.read i k) { s with reads := s.reads + 1, rounds := rounds }
  | reject (i k : ℕ) (rounds : List (List Request)) :
      (∀ a ∈ rounds.flatMap values, a ∈ s.rounds.flatMap values) →
      Moves s (.reject i k) { s with rounds := rounds }
  | resume (i : ℕ) (now : Time) (round : List Request) (results : List (Settled Read)) :
      s.rounds[i]? = some round → fetched results = values round →
      Moves s (.resume i now)
        ({ s with rounds := s.rounds.eraseIdx i }.withPage (s.page.shows results now))

theorem moves_of_step {a : Act} (h : step s a = some t) : Moves s a t := by
  cases a with
  | process a =>
      obtain ⟨sys, hsys, rfl⟩ := Option.map_eq_some_iff.mp h
      exact .process a sys hsys
  | fetchJobs silent ids =>
      simp only [step] at h
      split at h
      · cases h
      · obtain rfl := Option.some.inj h
        exact .fetchJobs silent ids
  | read i k =>
      simp only [step] at h
      split at h
      · cases h
      · obtain ⟨q, -, hrest⟩ := Option.bind_eq_some_iff.mp h
        obtain ⟨row, hrow, hanswer⟩ := Option.bind_eq_some_iff.mp hrest
        obtain ⟨rounds, rfl, hrounds⟩ := answered_cases hanswer
        have hid : row.jobId = q.jobId := (JobsTable.byId_eq_some_iff.mp hrow).2
        refine .read i k row rounds (by rw [hid]; exact hrow) ?_
        intro a ha
        exact (hrounds a ha).imp_right fun heq => (Option.some.inj heq).symm
  | reject i k =>
      obtain ⟨rounds, rfl, hrounds⟩ := answered_cases h
      refine .reject i k rounds ?_
      intro a ha
      exact (hrounds a ha).resolve_right nofun
  | resume i now =>
      obtain ⟨round, hround, hrest⟩ := Option.bind_eq_some_iff.mp h
      obtain ⟨results, hresults, rfl⟩ := Option.map_eq_some_iff.mp hrest
      exact .resume i now round results hround (settled_values hresults)

theorem tracked_of_mounts (h : Mounts s) : Tracked s := by
  obtain ⟨sys, hreach, rfl⟩ := h
  exact ⟨hreach, dated_nil _ _⟩

private theorem known_of_rounds {rounds : List (List Request)} {l : List Read}
    (h : ∀ a ∈ rounds.flatMap values, a ∈ s.rounds.flatMap values ∨ a ∈ l) :
    { s with rounds := rounds }.known ⊆ l ++ s.known := by
  intro a ha
  unfold State.known at ha ⊢
  rcases List.mem_append.mp ha with hshown | hround
  · exact List.mem_append_right _ (List.mem_append_left _ hshown)
  · rcases h a hround with hold | hnew
    · exact List.mem_append_right _ (List.mem_append_right _ hold)
    · exact List.mem_append_left _ hnew

private theorem known_resume {i : ℕ} {round : List Request} {results : List (Settled Read)}
    (hround : s.rounds[i]? = some round) (hresults : fetched results = values round) (now : Time) :
    ({ s with rounds := s.rounds.eraseIdx i }.withPage (s.page.shows results now)).known ⊆
      s.known := by
  refine known_withPage ?_ List.eraseIdx_subset
  intro a ha
  rw [Page.shows, hresults] at ha
  exact List.mem_flatMap.mpr ⟨round, List.mem_of_getElem? hround, ha⟩

theorem tracked_of_step {a : Act} (h : Tracked s) (hstep : step s a = some t) : Tracked t := by
  obtain ⟨hreach, hdated⟩ := h
  cases moves_of_step hstep with
  | process a sys hsys =>
      exact ⟨hreach.next trivial hsys, hdated.moved (stage_of_process hreach hsys)⟩
  | fetchJobs silent ids =>
      obtain ⟨hsys, hreads⟩ := fetchJobs_eq s silent ids
      refine ⟨hsys ▸ hreach, ?_⟩
      rw [hsys, hreads]
      exact hdated.subset (known_fetchJobs s silent ids)
  | read i k row rounds hrow hrounds =>
      have hread := hdated.read (b := ⟨scanJobStatus row, s.reads⟩)
        (by simp only [stage, scanJobStatus, hrow, Option.elim_some]) rfl
      have hknown : { s with rounds := rounds }.known ⊆
          [Read.mk (scanJobStatus row) s.reads] ++ s.known :=
        known_of_rounds fun a ha => (hrounds a ha).imp_right List.mem_singleton.mpr
      exact ⟨hreach, hread.subset hknown⟩
  | reject i k rounds hrounds =>
      exact ⟨hreach, hdated.subset (known_of_rounds (l := []) fun a ha => .inl (hrounds a ha))⟩
  | resume i now round results hround hresults =>
      exact ⟨hreach, hdated.subset (known_resume hround hresults now)⟩

/-- A step keeps the list from going back exactly when it shows the reads in order. -/
private theorem neverBack_step_iff {a : Act} (h : Tracked s) (hback : NeverBack s)
    (hstep : step s a = some t) : NeverBack t ↔ InOrder s a := by
  obtain ⟨-, hdated⟩ := h
  cases moves_of_step hstep with
  | process => exact iff_of_true hback trivial
  | fetchJobs silent ids =>
      refine iff_of_true ?_ trivial
      unfold State.fetchJobs NeverBack
      split
      · rw [Page.jobs_marked]
        exact hback
      · exact fun _ _ _ hnone => absurd hnone List.not_mem_nil
      · rw [Page.jobs_marked]
        exact hback
  | read => exact iff_of_true hback trivial
  | reject => exact iff_of_true hback trivial
  | resume i now round results hround hresults =>
      have hshown : s.earlier ++ s.page.jobs ⊆ s.known := List.subset_append_left _ _
      have hfresh : values round ⊆ s.known := by
        intro a ha
        refine List.mem_append_right _ (List.mem_flatMap.mpr ?_)
        exact ⟨round, List.mem_of_getElem? hround, ha⟩
      rw [InOrder, hround, Option.getD_some, NeverBack, State.withPage, Page.shows, hresults]
      exact hdated.forward_iff hshown hfresh

/-- From the first render on, through any rounds and any steps of the process: the list
never shows a job in an earlier stage than before, exactly as long as no round brings a
read of a job that a later read already shown has overtaken in another stage. -/
theorem neverBack_iff_inOrder {as : List Act} (hmounts : Mounts s)
    (hrun : run step s as = some t) : Always step NeverBack s as ↔ Meets step InOrder s as := by
  have hback : NeverBack s := by
    obtain ⟨sys, -, rfl⟩ := hmounts
    exact fun a hnone => absurd hnone List.not_mem_nil
  exact always_iff_meets (fun _ _ _ h _ hstep => tracked_of_step h hstep)
    (fun _ _ _ h hP _ hstep => neverBack_step_iff h hP hstep) (tracked_of_mounts hmounts) hback
    (meets_true s as) hrun

def ids : Option (List String) := some ["job-1"]

def starting : List Act :=
  [.process (.call 0 (.send Time.zero)), .process (.receive 0), .process (.work 0 {})]

/-- A round begins, the `i`-th on its way, and its request reads the row. -/
def asks (silent : Bool) (i : ℕ) : List Act := [.fetchJobs silent ids, .read i 0]

def ends (i : ℕ) : List Act := [.resume i Time.zero]

def inTurn : List Act := asks false 0 ++ ends 0 ++ starting ++ asks true 0 ++ ends 0

/-- The response of the first round arrives after the second round is over. -/
def crossed : List Act := asks false 0 ++ starting ++ asks true 1 ++ ends 1 ++ ends 0

def rendered : State := { sys := submitted }

theorem mounts_rendered : Mounts rendered :=
  ⟨submitted, (cold_of_migrated submitted_reachable).mono fun _ _ _ => trivial, rfl⟩

def turnEnd : State := (run step rendered inTurn).getD rendered

private theorem run_inTurn : run step rendered inTurn = some turnEnd :=
  run_eq_getD (by decide +kernel) rendered

theorem neverBack_iff_inOrder_inTurn :
    Always step NeverBack rendered inTurn ∧
      turnEnd.earlier.map (·.state) = [.queued] ∧ turnEnd.page.jobs.map (·.state) = [.running] :=
  ⟨(neverBack_iff_inOrder mounts_rendered run_inTurn).mpr (by decide +kernel), by decide +kernel,
    by decide +kernel⟩

def crossedEnd : State := (run step rendered crossed).getD rendered

/-- The list shows the job running and then queued. -/
theorem crossed_goesBack :
    Mounts rendered ∧ run step rendered crossed = some crossedEnd ∧
      crossedEnd.earlier.map (fun a => (a.jobId, a.state)) = [("job-1", .running)] ∧
      crossedEnd.page.jobs.map (fun a => (a.jobId, a.state)) = [("job-1", .queued)] ∧
      ¬ NeverBack crossedEnd :=
  ⟨mounts_rendered, run_eq_getD (by decide +kernel) rendered, by decide +kernel, by decide +kernel,
    by decide +kernel⟩

end TrendingPipeline.System.Rounds
